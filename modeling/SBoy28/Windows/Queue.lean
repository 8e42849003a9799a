import SBoy28.Windows.Model

/-!
# The message queue

`PostMessage` overwrites the message that is pending. The messages are delivered in order and
without loss if and only if each is retrieved before the next one is posted.
-/

namespace SBoy28.Windows

section Specification

inductive QueueCall where
  | post (msg : Msg)
  | get (lpMsg : Bool)

/-- The windows with the messages that were posted successfully and those that were retrieved. -/
structure Traffic where
  os : Os
  posted : List Msg
  retrieved : List Msg

def Traffic.step (s : Traffic) : QueueCall → Traffic
  | .post msg =>
    let r := postMessage s.os msg.hwnd msg.message msg.wParam msg.lParam
    { s with os := r.2, posted := if r.1 then s.posted ++ [msg] else s.posted }
  | .get lpMsg =>
    let r := getMessage s.os lpMsg
    { s with os := r.2.2, retrieved := s.retrieved ++ r.2.1.toList }

def Traffic.run (s : Traffic) (calls : List QueueCall) : Traffic := calls.foldl Traffic.step s

structure Traffic.Start (s : Traffic) : Prop where
  empty : s.os.hasPendingMessage = false
  running : s.os.quitRequested = false
  posted : s.posted = []
  retrieved : s.retrieved = []

/-- The messages other than `WM_NULL`. -/
def reals (msgs : List Msg) : List Msg := msgs.filter fun msg => msg.message != wmNull

/-- What a message queue does in a sequence of calls: at every moment the retrieved messages are a
prefix of the posted ones, and there is nothing to retrieve only when all were. -/
structure Fifo (s : Traffic) (calls : List QueueCall) : Prop where
  ordered : ∀ pre, pre <+: calls → reals (s.run pre).retrieved <+: reals (s.run pre).posted
  drained : ∀ pre msg, pre ++ [.get true] <+: calls → (getMessage (s.run pre).os true).2.1 = some msg →
    msg.message = wmNull → reals (s.run pre).retrieved = reals (s.run pre).posted

/-- Whether a message waits to be retrieved after the call. -/
def waits (w : Bool) : QueueCall → Bool
  | .post msg => msg.message != wmNull
  | .get true => false
  | .get false => w

/-- No message is posted while another one waits to be retrieved. -/
def Spaced : Bool → List QueueCall → Prop
  | _, [] => True
  | w, .post msg :: calls => w = false ∧ Spaced (waits w (.post msg)) calls
  | w, .get lpMsg :: calls => Spaced (waits w (.get lpMsg)) calls

end Specification

variable {s : Traffic} {w : Bool} {c : QueueCall} {calls pre : List QueueCall} {msg : Msg}

section Steps

/-- The message that is pending, unless it is `WM_NULL`. -/
def outstanding (os : Os) : List Msg := if os.hasPendingMessage then reals [os.pendingMessage] else []

lemma reals_append (l l' : List Msg) : reals (l ++ l') = reals l ++ reals l' := List.filter_append _ _

lemma step_post (s : Traffic) (msg : Msg) : (s.step (.post msg)).os.quitRequested = s.os.quitRequested ∧
    outstanding (s.step (.post msg)).os = reals [msg] ∧
    reals (s.step (.post msg)).posted = reals s.posted ++ reals [msg] ∧
    reals (s.step (.post msg)).retrieved = reals s.retrieved := by
  refine ⟨rfl, rfl, ?_, rfl⟩
  rw [← reals_append]
  rfl

lemma step_get (hq : s.os.quitRequested = false) :
    (s.step (.get true)).os.quitRequested = false ∧ outstanding (s.step (.get true)).os = [] ∧
      reals (s.step (.get true)).posted = reals s.posted ∧
      reals (s.step (.get true)).retrieved = reals s.retrieved ++ outstanding s.os := by
  cases hp : s.os.hasPendingMessage with
  | true =>
    have hget : getMessage s.os true =
        (true, some s.os.pendingMessage, { s.os with hasPendingMessage := false }) := by
      simp [getMessage, hq, hp]
    simp only [Traffic.step, hget, Option.toList, outstanding, hp, if_true]
    exact ⟨hq, rfl, trivial, reals_append _ _⟩
  | false =>
    have hget : getMessage s.os true = (true, some ⟨none, wmNull, 0, 0⟩, s.os) := by
      simp [getMessage, hq, hp]
    simp only [Traffic.step, hget, Option.toList, outstanding, hp]
    exact ⟨hq, rfl, trivial, reals_append _ _⟩

/-- `GetMessage` gives `WM_NULL` only when no other message is pending. -/
lemma get_null (hq : s.os.quitRequested = false) (hget : (getMessage s.os true).2.1 = some msg)
    (hnull : msg.message = wmNull) : outstanding s.os = [] := by
  cases hp : s.os.hasPendingMessage with
  | true =>
    have hmsg : s.os.pendingMessage = msg := by simpa [getMessage, hq, hp] using hget
    simp [outstanding, hp, reals, hmsg, hnull]
  | false => simp [outstanding, hp]

lemma get_of_empty (hq : s.os.quitRequested = false) (hout : outstanding s.os = []) :
    ∃ msg, (getMessage s.os true).2.1 = some msg ∧ msg.message = wmNull := by
  cases hp : s.os.hasPendingMessage with
  | true =>
    refine ⟨s.os.pendingMessage, by simp [getMessage, hq, hp], ?_⟩
    simpa [outstanding, hp, reals] using hout
  | false => exact ⟨⟨none, wmNull, 0, 0⟩, by simp [getMessage, hq, hp], rfl⟩

lemma step_skip (s : Traffic) : s.step (.get false) = s := by
  simp [Traffic.step, getMessage]

end Steps

section Invariants

/-- Nothing has been lost, and `w` tells whether a message waits. -/
structure Kept (s : Traffic) (w : Bool) : Prop where
  running : s.os.quitRequested = false
  waiting : w = false → outstanding s.os = []
  all : reals s.posted = reals s.retrieved ++ outstanding s.os

/-- Some message has been lost. -/
structure Lost (s : Traffic) : Prop where
  running : s.os.quitRequested = false
  fewer : (reals s.retrieved).length + (outstanding s.os).length < (reals s.posted).length

lemma Kept.start (h : s.Start) : Kept s false where
  running := h.running
  waiting _ := by simp [outstanding, h.empty]
  all := by simp [h.posted, h.retrieved, outstanding, h.empty, reals]

lemma Kept.post (h : Kept s false) (msg : Msg) : Kept (s.step (.post msg)) (waits w (.post msg)) := by
  obtain ⟨hq, hout, hpost, hret⟩ := step_post s msg
  refine ⟨hq.trans h.running, ?_, ?_⟩
  · intro hw
    rw [hout, reals, List.filter_singleton]
    simp only [waits] at hw
    rw [hw]
    rfl
  · rw [hpost, hret, hout, h.all, h.waiting rfl, List.append_nil]

lemma Kept.get (h : Kept s w) (lpMsg : Bool) : Kept (s.step (.get lpMsg)) (waits w (.get lpMsg)) := by
  cases lpMsg with
  | false => exact (step_skip s).symm ▸ h
  | true =>
    obtain ⟨hq, hout, hpost, hret⟩ := step_get h.running
    exact ⟨hq, fun _ => hout, by rw [hpost, hret, hout, h.all, List.append_nil]⟩

/-- A post while a message waits loses it. -/
lemma Kept.lose (h : Kept s w) (hout : outstanding s.os ≠ []) (msg : Msg) : Lost (s.step (.post msg)) := by
  obtain ⟨hq, hout', hpost, hret⟩ := step_post s msg
  refine ⟨hq.trans h.running, ?_⟩
  have hpos := List.length_pos_of_ne_nil hout
  rw [hret, hout', hpost, h.all]
  simp only [List.length_append]
  omega

lemma Lost.step (h : Lost s) (c : QueueCall) : Lost (s.step c) := by
  have hfewer := h.fewer
  cases c with
  | post msg =>
    obtain ⟨hq, hout, hpost, hret⟩ := step_post s msg
    refine ⟨hq.trans h.running, ?_⟩
    rw [hret, hout, hpost, List.length_append]
    omega
  | get lpMsg =>
    cases lpMsg with
    | false => exact (step_skip s).symm ▸ h
    | true =>
      obtain ⟨hq, hout, hpost, hret⟩ := step_get h.running
      refine ⟨hq, ?_⟩
      rw [hret, hout, hpost, List.length_append, List.length_nil]
      omega

lemma Lost.run (h : Lost s) (calls : List QueueCall) : Lost (s.run calls) := by
  induction calls generalizing s with
  | nil => exact h
  | cons c calls ih => exact ih (h.step c)

end Invariants

section Runs

lemma Spaced.of_isPrefix (h : Spaced w calls) (hp : pre <+: calls) : Spaced w pre := by
  induction calls generalizing w pre with
  | nil =>
    rw [List.prefix_nil.mp hp]
    trivial
  | cons c calls ih =>
    cases pre with
    | nil => trivial
    | cons d pre =>
      obtain ⟨rfl, hpre⟩ := List.cons_prefix_cons.mp hp
      cases d with
      | post msg => exact ⟨h.1, ih h.2 hpre⟩
      | get lpMsg => exact ih (w := waits w (.get lpMsg)) h hpre

lemma Spaced.gets (h : Spaced w calls) (k : ℕ) : Spaced w (calls ++ List.replicate k (.get true)) := by
  induction calls generalizing w with
  | nil =>
    rw [List.nil_append]
    induction k generalizing w with
    | zero => trivial
    | succ k ihk => exact ihk (w := false) trivial
  | cons c calls ih =>
    cases c with
    | post msg => exact ⟨h.1, ih h.2⟩
    | get lpMsg => exact ih (w := waits w (.get lpMsg)) h

/-- Spaced posts lose nothing. -/
theorem Kept.run (h : Kept s w) (hs : Spaced w calls) : ∃ w', Kept (s.run calls) w' := by
  induction calls generalizing s w with
  | nil => exact ⟨w, h⟩
  | cons c calls ih =>
    cases c with
    | post msg =>
      obtain ⟨rfl, hs⟩ := hs
      exact ih (h.post msg) hs
    | get lpMsg => exact ih (w := waits w (.get lpMsg)) (h.get lpMsg) hs

lemma Spaced.fifo (h : s.Start) (hs : Spaced false calls) : Fifo s calls where
  ordered pre hp := by
    obtain ⟨w, hk⟩ := (Kept.start h).run (hs.of_isPrefix hp)
    rw [hk.all]
    exact List.prefix_append _ _
  drained pre msg hp hget hnull := by
    have hpre : pre <+: calls := (List.prefix_append _ _).trans hp
    obtain ⟨w, hk⟩ := (Kept.start h).run (hs.of_isPrefix hpre)
    rw [hk.all, get_null hk.running hget hnull, List.append_nil]

/-- Posts that are not spaced lose a message. -/
theorem Kept.lost (h : Kept s w) (hw : w = true → outstanding s.os ≠ []) (hs : ¬Spaced w calls) :
    Lost (s.run calls) := by
  induction calls generalizing s w with
  | nil => exact absurd trivial hs
  | cons c calls ih =>
    cases c with
    | post msg =>
      cases w with
      | true => exact (h.lose (hw rfl) msg).run calls
      | false =>
        have hrest : ¬Spaced (waits false (.post msg)) calls := fun hrest => hs ⟨rfl, hrest⟩
        refine ih (h.post msg) ?_ hrest
        intro hreal
        obtain ⟨-, hout, -⟩ := step_post s msg
        rw [hout, reals, List.filter_singleton]
        simp only [waits] at hreal
        rw [hreal]
        exact List.cons_ne_nil _ _
    | get lpMsg =>
      refine ih (h.get lpMsg) ?_ hs
      cases lpMsg with
      | true => exact fun hfalse => absurd hfalse (by simp [waits])
      | false =>
        rw [step_skip]
        exact hw

/-- A queue that has lost a message shows it when it is emptied. -/
lemma Lost.not_fifo {s₀ : Traffic} (h : Lost (s₀.run calls)) :
    ¬Fifo s₀ (calls ++ List.replicate 2 (.get true)) := by
  intro hfifo
  have hnext : s₀.run (calls ++ [.get true]) = (s₀.run calls).step (.get true) := by
    rw [Traffic.run, List.foldl_append]
    rfl
  have hlost := h.step (.get true)
  obtain ⟨msg, hget, hnull⟩ := get_of_empty hlost.running (step_get h.running).2.1
  have hsame := hfifo.drained (calls ++ [.get true]) msg (by simp [List.replicate_succ])
  rw [hnext] at hsame
  have hlen := congrArg List.length (hsame hget hnull)
  have hfewer := hlost.fewer
  omega

/-- In any sequence of `PostMessage` and `GetMessage` calls, followed by as many more `GetMessage`
calls as one likes, the messages come out as from a queue if and only if none is posted while
another one waits to be retrieved. -/
theorem message_queue (h : s.Start) (calls : List QueueCall) :
    (∀ k, Fifo s (calls ++ List.replicate k (.get true))) ↔ Spaced false calls := by
  constructor
  · intro hfifo
    by_contra hs
    exact ((Kept.start h).lost (by simp) hs).not_fifo (hfifo 2)
  · intro hs k
    exact (hs.gets k).fifo h

/-- Two messages, each retrieved before the next call of `PostMessage`. -/
theorem message_queue_spaced : Fifo ⟨.boot, [], []⟩
    ([.post ⟨some 0, 0x0100, 0x1E, 0⟩, .get true, .post ⟨some 0, 0x0201, 1, 0⟩] ++ List.replicate 1 (.get true)) :=
  (message_queue ⟨rfl, rfl, rfl, rfl⟩
    [.post ⟨some 0, 0x0100, 0x1E, 0⟩, .get true, .post ⟨some 0, 0x0201, 1, 0⟩]).mpr ⟨rfl, rfl, trivial⟩ 1

/-- A key and a click are posted before the next call of `GetMessage`; the key is lost. -/
theorem message_queue_burst : ¬∀ (s : Traffic) (calls : List QueueCall), s.Start → Fifo s calls := by
  intro h
  have hfifo := h ⟨.boot, [], []⟩
    [.post ⟨some 0, 0x0100, 0x1E, 0⟩, .post ⟨some 0, 0x0201, 1, 0⟩, .get true] ⟨rfl, rfl, rfl, rfl⟩
  have hordered := hfifo.ordered _ (List.prefix_refl _)
  exact absurd hordered (by decide)

end Runs

end SBoy28.Windows
