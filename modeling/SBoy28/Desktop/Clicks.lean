import SBoy28.Desktop.Frames

/-!
# Clicks on what is drawn

The places of the buttons and of the entries of the menu stand in the code twice, once where they are drawn and once
where a click is looked up. The two agree.
-/

namespace SBoy28.Desktop
open Lib Windows

section Specification

/-- The entries of the menu, each with what it does. -/
def entries : List ((ℤ × CString) × Except Halt App) :=
  labels.zip [.ok .console, .ok .taskManager, .ok .settings, .ok .endSession, .error .shutdown, .error .restart]

/-- A click does what is written or drawn at its place. In the open menu every pixel belongs to an entry, from four
rows above its text on; what is not drawn is not there, and anywhere else a click closes the menu. -/
structure ClickMatches (shell : Shell) (px py : ℕ) : Prop where
  startButton : ∀ color, (rectLayer ⟨4, 186, 46, 12⟩ color (py * 320 + px)).isSome →
    shell.click px py = .ok { shell with menuOpen := !shell.menuOpen }
  closeButton : shell.window.isSome → ∀ color, (rectLayer ⟨246, 28, 10, 8⟩ color (py * 320 + px)).isSome →
    shell.click px py = .ok ⟨false, none⟩
  entry : shell.menuOpen → ∀ entry ∈ entries, (labelLayer entry.1 (py * 320 + px)).isSome →
    shell.click px py = entry.2.map fun app => ⟨false, some app⟩
  menu : shell.menuOpen → ∀ color, (rectLayer ⟨4, 92, 146, 92⟩ color (py * 320 + px)).isSome →
    ∃ entry ∈ entries, shell.click px py = entry.2.map (fun app => ⟨false, some app⟩) ∧
      (∀ other ∈ entries, 92 + other.1.1 - 4 ≤ (py : ℤ) → other.1.1 ≤ entry.1.1) ∧
      (92 + entry.1.1 - 4 ≤ (py : ℤ) ∨ ∀ other ∈ entries, entry.1.1 ≤ other.1.1)
  elsewhere : (∀ color, rectLayer ⟨4, 186, 46, 12⟩ color (py * 320 + px) = none) →
    (shell.window.isSome → ∀ color, rectLayer ⟨246, 28, 10, 8⟩ color (py * 320 + px) = none) →
      (shell.menuOpen → ∀ color, rectLayer ⟨4, 92, 146, 92⟩ color (py * 320 + px) = none) →
        shell.click px py = .ok { shell with menuOpen := false }

end Specification

section Dots

variable {part : ℤ → ℤ → Prop} [∀ px py, Decidable (part px py)] {color : UInt8} {px py : ℕ}

lemma screenLayer_isSome (hpx : px < 320) (hpy : py < 200) :
    (screenLayer part color (py * 320 + px)).isSome ↔ part px py := by
  have hp : py * 320 + px < vgaSize := by
    unfold vgaSize
    omega
  have hx : (py * 320 + px) % 320 = px := by omega
  have hy : (py * 320 + px) / 320 = py := by omega
  unfold screenLayer
  rw [hx, hy]
  by_cases hpart : part px py
  · rw [if_pos ⟨hp, hpart⟩]
    exact iff_of_true rfl hpart
  · rw [if_neg fun hc => hpart hc.2]
    exact iff_of_false Bool.false_ne_true hpart

/-- The dots of a text that fits into its line. -/
lemma textDots_line {str : List UInt8} {x y qx qy : ℤ} (hlen : str.length ≤ firstLine x)
    (h : TextDots str x y qx qy) : x ≤ qx ∧ qx < x + 8 * str.length ∧ y ≤ qy ∧ qy < y + 8 := by
  obtain ⟨k, hk, -, i, hi, j, hj, -, hqx, hqy⟩ := h
  unfold textColumn at hqx
  unfold textLine at hqy
  rw [if_pos (by omega)] at hqx hqy
  omega

end Dots

section Matches

variable {shell : Shell} {px py : ℕ}

lemma onStartButton_layer (hpx : px < 320) (hpy : py < 200) (color : UInt8) :
    (rectLayer ⟨4, 186, 46, 12⟩ color (py * 320 + px)).isSome ↔ OnStartButton px py := by
  refine (screenLayer_isSome hpx hpy).trans ?_
  change (4 : ℤ) ≤ px ∧ (px : ℤ) < 4 + 46 ∧ (186 : ℤ) ≤ py ∧ (py : ℤ) < 186 + 12 ↔ _
  unfold OnStartButton
  omega

lemma onCloseButton_layer (hpx : px < 320) (hpy : py < 200) (color : UInt8) :
    (rectLayer ⟨246, 28, 10, 8⟩ color (py * 320 + px)).isSome ↔ OnCloseButton px py := by
  refine (screenLayer_isSome hpx hpy).trans ?_
  change (246 : ℤ) ≤ px ∧ (px : ℤ) < 246 + 10 ∧ (28 : ℤ) ≤ py ∧ (py : ℤ) < 28 + 8 ↔ _
  unfold OnCloseButton
  omega

lemma onMenu_layer (hpx : px < 320) (hpy : py < 200) (color : UInt8) :
    (rectLayer ⟨4, 92, 146, 92⟩ color (py * 320 + px)).isSome ↔ OnMenu px py := by
  refine (screenLayer_isSome hpx hpy).trans ?_
  change (4 : ℤ) ≤ px ∧ (px : ℤ) < 4 + 146 ∧ (92 : ℤ) ≤ py ∧ (py : ℤ) < 92 + 92 ↔ _
  unfold OnMenu
  omega

/-- An entry of the menu takes up the rows in which its text is drawn. -/
lemma entry_rows {entry : (ℤ × CString) × Except Halt App} (h : entry ∈ entries) :
    entry.1.2.1.length ≤ 12 ∧ 0 ≤ entry.1.1 ∧ entry.1.1 ≤ 76 ∧
      ∀ row : ℤ, entry.1.1 ≤ row → row < entry.1.1 + 8 → menuEntry row = entry.2 := by
  simp only [entries, labels, List.zip_cons_cons, List.zip_nil_right, List.mem_cons, List.not_mem_nil,
    or_false] at h
  obtain rfl | rfl | rfl | rfl | rfl | rfl := h <;>
    exact ⟨by decide, by decide, by decide, fun row hrow hrow' => by
      dsimp only at hrow hrow'
      unfold menuEntry
      split_ifs <;> first | rfl | omega⟩

lemma forall_entries (P : ℤ → Prop) :
    (∀ entry ∈ entries, P entry.1.1) ↔ P 16 ∧ P 28 ∧ P 40 ∧ P 52 ∧ P 64 ∧ P 76 := by
  simp [entries, labels]

/-- Which entry a row of the menu belongs to. -/
lemma exists_entry (row : ℤ) : ∃ entry ∈ entries, menuEntry row = entry.2 ∧
    (∀ other ∈ entries, other.1.1 - 4 ≤ row → other.1.1 ≤ entry.1.1) ∧
    (entry.1.1 - 4 ≤ row ∨ ∀ other ∈ entries, entry.1.1 ≤ other.1.1) := by
  unfold menuEntry
  split_ifs with h24 h36 h48 h60 h72
  · exact ⟨entries[0], List.getElem_mem _, rfl,
      (forall_entries (fun k => k - 4 ≤ row → k ≤ 16)).mpr (by omega),
      Or.inr ((forall_entries (16 ≤ ·)).mpr (by omega))⟩
  · exact ⟨entries[1], List.getElem_mem _, rfl,
      (forall_entries (fun k => k - 4 ≤ row → k ≤ 28)).mpr (by omega),
      Or.inl (show (28 : ℤ) - 4 ≤ row by omega)⟩
  · exact ⟨entries[2], List.getElem_mem _, rfl,
      (forall_entries (fun k => k - 4 ≤ row → k ≤ 40)).mpr (by omega),
      Or.inl (show (40 : ℤ) - 4 ≤ row by omega)⟩
  · exact ⟨entries[3], List.getElem_mem _, rfl,
      (forall_entries (fun k => k - 4 ≤ row → k ≤ 52)).mpr (by omega),
      Or.inl (show (52 : ℤ) - 4 ≤ row by omega)⟩
  · exact ⟨entries[4], List.getElem_mem _, rfl,
      (forall_entries (fun k => k - 4 ≤ row → k ≤ 64)).mpr (by omega),
      Or.inl (show (64 : ℤ) - 4 ≤ row by omega)⟩
  · exact ⟨entries[5], List.getElem_mem _, rfl,
      (forall_entries (fun k => k - 4 ≤ row → k ≤ 76)).mpr (by omega),
      Or.inl (show (76 : ℤ) - 4 ≤ row by omega)⟩

theorem click_matches (shell : Shell) (px py : ℕ) (hpx : px < 320) (hpy : py < 200) : ClickMatches shell px py where
  startButton := by
    intro color hsome
    exact if_pos ((onStartButton_layer hpx hpy color).mp hsome)
  closeButton := by
    intro hwindow color hsome
    have hclose := (onCloseButton_layer hpx hpy color).mp hsome
    have hstart : ¬OnStartButton px py := by
      unfold OnStartButton
      unfold OnCloseButton at hclose
      omega
    unfold Shell.click
    rw [if_neg hstart, if_pos ⟨hwindow, hclose⟩]
  entry := by
    intro hopen entry hentry hsome
    obtain ⟨hlen, h0, h76, hrow⟩ := entry_rows hentry
    have hfirst : firstLine 12 = 38 := by decide
    have hdots := (screenLayer_isSome hpx hpy).mp hsome
    obtain ⟨hleft, hright, htop, hbottom⟩ := textDots_line (by omega) hdots
    have hstart : ¬OnStartButton px py := by
      unfold OnStartButton
      omega
    have hclose : ¬OnCloseButton px py := by
      unfold OnCloseButton
      omega
    have hmenu : OnMenu px py := by
      unfold OnMenu
      omega
    unfold Shell.click
    rw [if_neg hstart, if_neg fun hc => hclose hc.2, if_pos ⟨hopen, hmenu⟩, hrow _ (by omega) (by omega)]
  menu := by
    intro hopen color hsome
    have hmenu := (onMenu_layer hpx hpy color).mp hsome
    have hstart : ¬OnStartButton px py := by
      unfold OnStartButton
      unfold OnMenu at hmenu
      omega
    have hclose : ¬OnCloseButton px py := by
      unfold OnCloseButton
      unfold OnMenu at hmenu
      omega
    obtain ⟨entry, hentry, hrow, hlast, hbelow⟩ := exists_entry (py - 92)
    refine ⟨entry, hentry, ?_, fun other hother hle => hlast other hother (by omega),
      hbelow.imp_left fun hle => by omega⟩
    unfold Shell.click
    rw [if_neg hstart, if_neg fun hc => hclose hc.2, if_pos ⟨hopen, hmenu⟩, hrow]
  elsewhere := by
    intro hstart hclose hmenu
    have hstart' : ¬OnStartButton px py := by
      rw [← onStartButton_layer hpx hpy 0, hstart]
      exact Bool.false_ne_true
    have hclose' : ¬(shell.window.isSome = true ∧ OnCloseButton px py) := by
      rintro ⟨hwindow, hc⟩
      rw [← onCloseButton_layer hpx hpy 0, hclose hwindow] at hc
      cases hc
    have hmenu' : ¬(shell.menuOpen = true ∧ OnMenu px py) := by
      rintro ⟨hopen, hc⟩
      rw [← onMenu_layer hpx hpy blue, hmenu hopen] at hc
      cases hc
    unfold Shell.click
    rw [if_neg hstart', if_neg hclose', if_neg hmenu']

/-- On the first letter of "Restart". -/
theorem click_matches_letter : ClickMatches ⟨true, none⟩ 12 168 :=
  click_matches _ _ _ (by decide) (by decide)

end Matches

end SBoy28.Desktop
