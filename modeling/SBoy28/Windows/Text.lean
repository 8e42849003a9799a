import SBoy28.Windows.Classes

/-!
# The text of a window

`GetWindowText` copies the title into a buffer of the caller. The copy that `SetWindowText` and
`CreateWindowEx` keep of a title stops after 63 characters, although the field has room for 127.
-/

namespace SBoy28.Windows
open Lib

section Calls

/-- The second argument bounds the steps; the array has a zero before it runs out. -/
def strlenLoop (str : ℕ → UInt8) : ℕ → UInt32 → UInt32
  | 0, len => len
  | n + 1, len => if str len.toNat ≠ 0 then strlenLoop str n (len + 1) else len

def strlen (str : ℕ → UInt8) (size : ℕ) : UInt32 := strlenLoop str size 0

/-- `GetWindowText`: its result, and the buffer at `lpString` if that is not the null pointer. -/
def getWindowText (os : Os) (hWnd : HWnd) (lpString : Option (ℕ → UInt8)) (nMaxCount : Int32) :
    Int32 × Option (ℕ → UInt8) :=
  match hWnd, lpString with
  | some i, some buffer =>
    if isValidWindow os (some i) = true ∧ ¬nMaxCount ≤ 0 then
      let size := nMaxCount.toNatClampNeg
      let buffer := Function.update (strncpy buffer (string (os.windows i).title 128) (size - 1)) (size - 1) 0
      ((strlen buffer size).toInt32, some buffer)
    else (0, some buffer)
  | _, lpString => (0, lpString)

end Calls

section Specification

/-- The title was just set, for a live window or with a new one. -/
def Titled (os : Os) (i : Fin 16) (s : CString) : Prop :=
  (∃ before : Os, (before.windows i).inUse = true ∧ os = (setWindowText before (some i) (some s.1)).2) ∨
    ∃ (before : Os) (args : CreateArgs), args.windowName = some s.1 ∧ (before.create args).1 = some i ∧
      os = (before.create args).2

/-- The characters that there is room for, in the title and in the buffer. -/
def room (s : CString) (n : Int32) : ℕ := min s.1.length (min 127 (n.toNatClampNeg - 1))

/-- What the callers rely on. -/
structure ReadsText (os : Os) (i : Fin 16) (s : CString) (buffer : ℕ → UInt8) (n : Int32) : Prop where
  text : ∃ lpString, (getWindowText os (some i) (some buffer) n).2 = some lpString ∧
    (∀ j, n.toNatClampNeg ≤ j → lpString j = buffer j) ∧ (∀ j < room s n, lpString j = s.1.getD j 0) ∧
      lpString (room s n) = 0
  count : (getWindowText os (some i) (some buffer) n).1.toInt = room s n

end Specification

variable {os : Os} {i : Fin 16} {s : CString} {buffer : ℕ → UInt8} {n : Int32}

section Lengths

lemma strlenLoop_toNat (str : ℕ → UInt8) {k : ℕ} {len : UInt32} (h : len.toNat + k < 2 ^ 32) :
    (strlenLoop str k len).toNat = len.toNat + (stringAt str len.toNat k).length := by
  induction k generalizing len with
  | zero => rfl
  | succ k ih =>
    have h1 : (1 : UInt32).toNat = 1 := rfl
    have hnext : (len + 1).toNat = len.toNat + 1 := toNat_add_of_lt (by rw [h1]; omega)
    unfold strlenLoop stringAt
    by_cases h0 : str len.toNat = 0
    · simp [h0]
    · rw [if_pos h0, if_neg h0, ih (by omega), hnext, List.length_cons]
      omega

lemma strlen_toNat (str : ℕ → UInt8) {k : ℕ} (h : k < 2 ^ 32) :
    (strlen str k).toNat = (string str k).length := by
  rw [strlen, strlenLoop_toNat str (by simpa using h)]
  simp [string]

lemma clamp_pos (hn : 1 ≤ n) : 1 ≤ n.toNatClampNeg := by
  rw [Int32.le_iff_toInt_le] at hn
  have h1 : (1 : Int32).toInt = 1 := rfl
  rw [← Int32.toNat_toInt]
  omega

end Lengths

section Titles

/-- Whatever was there before, the title becomes the first 63 characters. -/
lemma Titled.title (h : Titled os i s) :
    (os.windows i).inUse = true ∧ string (os.windows i).title 128 = s.1.take 63 := by
  rcases h with ⟨before, huse, rfl⟩ | ⟨before, args, hname, hcall, rfl⟩
  · have hcall : setWindowText before (some i) (some s.1) = _ := perform_valid (.setWindowText (some s.1)) huse
    rw [hcall]
    simp only [WindowCall.change, Function.update_self]
    exact ⟨huse, string_strncpy _ _ 127 s.2⟩
  · rcases create_spec before args with ⟨hfail, -⟩ | ⟨k, j, -, -, hnew⟩
    · rw [hfail] at hcall
      cases hcall
    · rw [hnew, Option.some.injEq] at hcall
      subst hcall
      rw [hnew]
      simp only [CreateArgs.window, newWindow, Function.update_self, hname]
      exact ⟨trivial, string_strncpy _ _ 127 s.2⟩

lemma getWindowText_titled (h : Titled os i s) (hn : 1 ≤ n) (buffer : ℕ → UInt8) :
    getWindowText os (some i) (some buffer) n =
      let lpString := Function.update (strncpy buffer (s.1.take 63) (n.toNatClampNeg - 1)) (n.toNatClampNeg - 1) 0
      ((strlen lpString n.toNatClampNeg).toInt32, some lpString) := by
  obtain ⟨huse, htitle⟩ := h.title
  have hpos : ¬n ≤ 0 := by
    rw [Int32.le_iff_toInt_le] at hn ⊢
    have h1 : (1 : Int32).toInt = 1 := rfl
    have h0 : (0 : Int32).toInt = 0 := rfl
    omega
  simp only [getWindowText, isValidWindow_some, huse, hpos, not_false_eq_true, and_self, if_true, htitle]

lemma count_titled (h : Titled os i s) (hn : 1 ≤ n) (buffer : ℕ → UInt8) :
    (getWindowText os (some i) (some buffer) n).1.toInt = min s.1.length (min 63 (n.toNatClampNeg - 1)) := by
  have hlt := n.toNatClampNeg_lt
  have hpos := clamp_pos hn
  obtain ⟨k, hk⟩ : ∃ k, n.toNatClampNeg = k + 1 := ⟨n.toNatClampNeg - 1, by omega⟩
  rw [getWindowText_titled h hn, hk, Nat.add_sub_cancel]
  have hlen := strlen_toNat (Function.update (strncpy buffer (s.1.take 63) k) k 0) (k := k + 1) (by omega)
  rw [string_strncpy buffer (s.1.take 63) k fun hm => s.2 (List.mem_of_mem_take hm), List.length_take,
    List.length_take] at hlen
  have hcast : ∀ x : UInt32, x.toNat < 2 ^ 31 → x.toInt32.toInt = x.toNat := by
    intro x hx
    rw [← Int32.toInt_toBitVec, UInt32.toBitVec_toInt32]
    exact BitVec.toInt_eq_toNat_of_lt (by rw [UInt32.toNat_toBitVec]; omega)
  rw [hcast _ (by omega), hlen]
  omega

/-- A title is read back, as far as there is room, just if it is not cut or the buffer is no larger. -/
theorem window_text_iff (h : Titled os i s) (hn : 1 ≤ n) (buffer : ℕ → UInt8) :
    ReadsText os i s buffer n ↔ s.1.length ≤ 63 ∨ n ≤ 64 := by
  have hn64 : n ≤ 64 ↔ n.toNatClampNeg ≤ 64 := by
    rw [Int32.le_iff_toInt_le] at hn ⊢
    have h1 : (1 : Int32).toInt = 1 := rfl
    have h64 : (64 : Int32).toInt = 64 := rfl
    rw [← Int32.toNat_toInt]
    omega
  have hcount := count_titled h hn buffer
  rw [hn64]
  constructor
  · intro hreads
    have hroom := hreads.count
    rw [hcount, room] at hroom
    omega
  · intro hshort
    have hroom : room s n = min (s.1.take 63).length (min (n.toNatClampNeg - 1) 63) := by
      rw [room, List.length_take]
      omega
    refine ⟨⟨_, by rw [getWindowText_titled h hn], ?_, ?_, ?_⟩, ?_⟩
    · intro j hj
      have hpos := clamp_pos hn
      exact strncpy_outside _ _ _ (by omega)
    · intro j hj
      rw [hroom] at hj
      have hj63 : j < 63 := by omega
      rw [strncpy_lt _ _ _ hj, List.getD_eq_getElem?_getD, List.getD_eq_getElem?_getD, List.getElem?_take,
        if_pos hj63]
    · rw [hroom]
      exact strncpy_end _ _ _
    · rw [hcount, room]
      omega

def titledWindow (title : List UInt8) : Os :=
  (singleClass.create ⟨0, some [97], some title, 0, 0, 0, 80, 25⟩).2

theorem window_text_short : ReadsText (titledWindow [72, 105]) 0 ⟨[72, 105], by decide⟩ (fun _ => 255) 3 :=
  (window_text_iff (Or.inr ⟨_, _, rfl, by decide, rfl⟩) (by decide) _).mpr (Or.inl (by decide))

/-- Of 64 characters only 63 are read back. -/
theorem window_text_long :
    Titled (titledWindow (List.replicate 64 97)) 0 ⟨List.replicate 64 97, by decide⟩ ∧
      ¬ReadsText (titledWindow (List.replicate 64 97)) 0 ⟨List.replicate 64 97, by decide⟩ (fun _ => 255) 128 := by
  have htitled : Titled (titledWindow (List.replicate 64 97)) 0 ⟨List.replicate 64 97, by decide⟩ :=
    Or.inr ⟨_, _, rfl, by decide, rfl⟩
  refine ⟨htitled, fun hreads => ?_⟩
  have hcount := hreads.count
  rw [count_titled htitled (by decide)] at hcount
  exact absurd hcount (by decide)

end Titles

end SBoy28.Windows
