/-
Transactions as state-passing programs: a program reads and writes a state
and either ends with an answer and a new state, or fails and gives the state
up. A failure carries no state, so rolling back is not a rule to prove but
the shape of the type.

The logic is a weakest precondition with two outcomes: `Tx.wp m Q E s` says
that `m`, run in `s`, ends in an answer and a state of `Q` or fails with an
error of `E`. The rules below take a program apart at its binds. What needs no
precondition is said by `Tx.Does R E m`, which relates the first state of
every run to the last, and composes without looking at the states at all.
-/
import Mathlib

/-- A program over the state `σ` with errors `ε` and answer `α`. -/
def Tx (ε σ α : Type) : Type := σ → Except ε (α × σ)

namespace Tx

variable {ε σ α β : Type}

instance : Monad (Tx ε σ) where
  pure a := fun s => .ok (a, s)
  bind m f := fun s =>
    match m s with
    | .ok (a, s') => f a s'
    | .error e => .error e

/-- Read the state. -/
def reads (f : σ → α) : Tx ε σ α := fun s => .ok (f s, s)

/-- The state itself. -/
def get : Tx ε σ σ := reads fun s => s

/-- Change the state. -/
def writes (f : σ → σ) : Tx ε σ Unit := fun s => .ok ((), f s)

/-- Give up. -/
def fail (e : ε) : Tx ε σ α := fun _ => .error e

/-- Go on only if the condition holds. -/
def ensure (c : Bool) (e : ε) : Tx ε σ Unit := if c then pure () else fail e

/-- Run a program on every entry of a list, left to right. -/
def forEach : List α → (α → Tx ε σ Unit) → Tx ε σ Unit
  | [], _ => pure ()
  | a :: as, f => do
    f a
    forEach as f

/-- Run a program on every entry of a list and keep the answers, in order. -/
def collect : List α → (α → Tx ε σ β) → Tx ε σ (List β)
  | [], _ => pure []
  | a :: as, f => do
    let b ← f a
    let bs ← collect as f
    pure (b :: bs)

/-- Run a program on every entry of a list, handing an accumulator on. -/
def fold : List α → β → (β → α → Tx ε σ β) → Tx ε σ β
  | [], b, _ => pure b
  | a :: as, b, f => do
    let b ← f b a
    fold as b f

/-- The state a run leaves behind: what it committed, or what it found. -/
def commit (m : Tx ε σ α) (s : σ) : σ :=
  match m s with
  | .ok (_, s') => s'
  | .error _ => s

theorem get_bind (f : σ → Tx ε σ β) (s : σ) : (get >>= f) s = f s s := rfl

theorem bind_run (m : Tx ε σ α) (f : α → Tx ε σ β) (s : σ) :
    (m >>= f) s = match m s with | .ok (a, s') => f a s' | .error e => .error e := rfl

theorem bind_ok_iff {m : Tx ε σ α} {f : α → Tx ε σ β} {s s' : σ} {b : β} :
    (m >>= f) s = .ok (b, s') ↔ ∃ a s₁, m s = .ok (a, s₁) ∧ f a s₁ = .ok (b, s') := by
  rw [bind_run]
  cases m s with
  | ok p =>
    constructor
    · exact fun h => ⟨p.1, p.2, rfl, h⟩
    · intro ⟨a, s₁, hp, h⟩
      obtain rfl := Except.ok.inj hp
      exact h
  | error e => simp

theorem ensure_ok_iff {c : Bool} {e : ε} {s s' : σ} {a : Unit} :
    (ensure c e : Tx ε σ Unit) s = .ok (a, s') ↔ c = true ∧ s' = s := by
  cases c with
  | true =>
    show Except.ok ((), s) = Except.ok (a, s') ↔ _
    simp [eq_comm]
  | false =>
    show (Except.error e : Except ε (Unit × σ)) = Except.ok (a, s') ↔ _
    simp

theorem forEach_writes (f : α → σ → σ) : ∀ (l : List α) (s : σ),
    (forEach l fun a => writes (f a) : Tx ε σ Unit) s = .ok ((), l.foldl (fun s a => f a s) s)
  | [], _ => rfl
  | a :: l, s => forEach_writes f l (f a s)

theorem commit_ok {m : Tx ε σ α} {s s' : σ} {a : α} (h : m s = .ok (a, s')) : m.commit s = s' := by
  simp [commit, h]

/-- Computing an answer from an answer leaves what was committed. -/
theorem commit_bind_pure {m : Tx ε σ α} {s s' : σ} {a : α} (h : m s = .ok (a, s')) (f : α → β) :
    (m >>= fun b => pure (f b)).commit s = s' := by
  refine commit_ok (a := f a) ?_
  rw [bind_run, h]
  rfl

/-! ## Preconditions -/

/-- Run in `s`, the program answers within `Q` or fails within `E`. -/
def wp (m : Tx ε σ α) (Q : α → σ → Prop) (E : ε → Prop) (s : σ) : Prop :=
  match m s with
  | .ok (a, s') => Q a s'
  | .error e => E e

variable {Q Q' : α → σ → Prop} {E E' : ε → Prop} {s : σ}

@[simp] theorem wp_pure (a : α) : wp (pure a : Tx ε σ α) Q E s ↔ Q a s := Iff.rfl

@[simp] theorem wp_reads (f : σ → α) : wp (reads f) Q E s ↔ Q (f s) s := Iff.rfl

@[simp] theorem wp_get {Q : σ → σ → Prop} : wp get Q E s ↔ Q s s := Iff.rfl

@[simp] theorem wp_writes (f : σ → σ) {Q : Unit → σ → Prop} : wp (writes f) Q E s ↔ Q () (f s) := Iff.rfl

@[simp] theorem wp_fail (e : ε) : wp (fail e : Tx ε σ α) Q E s ↔ E e := Iff.rfl

@[simp] theorem wp_ensure {c : Bool} {e : ε} {Q : Unit → σ → Prop} :
    wp (ensure c e) Q E s ↔ (c = true → Q () s) ∧ (c = false → E e) := by
  cases c <;> simp [ensure]

@[simp] theorem wp_bind {m : Tx ε σ α} {f : α → Tx ε σ β} {Q : β → σ → Prop} :
    wp (m >>= f) Q E s ↔ wp m (fun a s' => wp (f a) Q E s') E s := by
  unfold wp
  rw [bind_run]
  cases m s with
  | ok p => rfl
  | error e => rfl

/-- The rule of consequence. -/
theorem wp.mono {m : Tx ε σ α} (h : wp m Q E s) (hQ : ∀ a s', Q a s' → Q' a s') (hE : ∀ e, E e → E' e) :
    wp m Q' E' s := by
  unfold wp at h ⊢
  cases hm : m s with
  | ok p => rw [hm] at h; exact hQ _ _ h
  | error e => rw [hm] at h; exact hE _ h

theorem wp.imp {m : Tx ε σ α} (h : wp m Q E s) (hQ : ∀ a s', Q a s' → Q' a s') : wp m Q' E s :=
  h.mono hQ fun _ he => he

theorem wp.and {m : Tx ε σ α} (h : wp m Q E s) (h' : wp m Q' E' s) :
    wp m (fun a s' => Q a s' ∧ Q' a s') (fun e => E e ∧ E' e) s := by
  unfold wp at h h' ⊢
  cases hm : m s with
  | ok p => rw [hm] at h h'; exact ⟨h, h'⟩
  | error e => rw [hm] at h h'; exact ⟨h, h'⟩

/-- What a program is seen to do, it does. -/
theorem wp.self {m : Tx ε σ α} (h : wp m Q E s) : wp m (fun a s' => m s = .ok (a, s')) E s := by
  unfold wp at h ⊢
  cases hm : m s with
  | ok p => rfl
  | error e => rw [hm] at h; exact h

theorem wp.ok {m : Tx ε σ α} (h : wp m Q E s) {a : α} {s' : σ} (hm : m s = .ok (a, s')) : Q a s' := by
  simpa only [wp, hm] using h

theorem wp.error {m : Tx ε σ α} (h : wp m Q E s) {e : ε} (hm : m s = .error e) : E e := by
  simpa only [wp, hm] using h

/-- What a program does is what it answers within. -/
theorem wp_of_ok {m : Tx ε σ α} {a : α} {s' : σ} (hm : m s = .ok (a, s')) (hQ : Q a s') : wp m Q E s := by
  unfold wp
  rw [hm]
  exact hQ

/-- A program that cannot fail, ends. -/
theorem wp.total {m : Tx ε σ α} (h : wp m Q (fun _ => False) s) : ∃ a s', m s = .ok (a, s') ∧ Q a s' := by
  cases hm : m s with
  | ok p => exact ⟨p.1, p.2, rfl, h.ok hm⟩
  | error e => exact (h.error hm).elim

/-- What is committed: the state as it was, or one the program answers in. -/
theorem wp.commit {m : Tx ε σ α} (h : wp m Q E s) : m.commit s = s ∨ ∃ a, Q a (m.commit s) := by
  unfold Tx.commit
  cases hm : m s with
  | ok p => exact .inr ⟨p.1, h.ok hm⟩
  | error e => exact .inl rfl

/-- **The loop rule.** An invariant indexed by the entries still to come, which
one pass of the body hands from `a :: rest` to `rest`, holds with nothing left
when the loop is done. -/
theorem wp_forEach {f : α → Tx ε σ Unit} {I : List α → σ → Prop}
    (step : ∀ a rest s, I (a :: rest) s → wp (f a) (fun _ s' => I rest s') E s) :
    ∀ {l : List α} {s : σ}, I l s → wp (forEach l f) (fun _ s' => I [] s') E s
  | [], _, hI => hI
  | a :: rest, s, hI => by
    simp only [forEach, wp_bind]
    exact (step a rest s hI).imp fun _ _ h => wp_forEach step h

/-- The loop rule for answers: each is related to the entry it comes from. -/
theorem wp_collect {f : α → Tx ε σ β} {I : List α → List β → σ → Prop}
    (step : ∀ a rest bs s, I (a :: rest) bs s → wp (f a) (fun b s' => I rest (bs ++ [b]) s') E s) :
    ∀ {l : List α} {bs : List β} {s : σ}, I l bs s →
      wp (collect l f) (fun bs' s' => I [] (bs ++ bs') s') E s
  | [], bs, _, hI => by simpa only [collect, wp_pure, List.append_nil] using hI
  | a :: rest, bs, s, hI => by
    simp only [collect, wp_bind, wp_pure]
    refine (step a rest bs s hI).imp fun b _ h => ?_
    refine (wp_collect step h).imp fun bs' _ h' => ?_
    simpa only [List.append_assoc, List.singleton_append] using h'

/-- The loop rule for answers, for a whole loop. -/
theorem wp_collect_all {f : α → Tx ε σ β} {I : List α → List β → σ → Prop} {l : List α} {s : σ}
    (step : ∀ a rest bs s, I (a :: rest) bs s → wp (f a) (fun b s' => I rest (bs ++ [b]) s') E s) (h : I l [] s) :
    wp (collect l f) (fun bs s' => I [] bs s') E s :=
  wp_collect step h

/-- The loop rule for an accumulator. -/
theorem wp_fold {f : β → α → Tx ε σ β} {I : List α → β → σ → Prop}
    (step : ∀ a rest b s, I (a :: rest) b s → wp (f b a) (fun b' s' => I rest b' s') E s) :
    ∀ {l : List α} {b : β} {s : σ}, I l b s → wp (fold l b f) (fun b' s' => I [] b' s') E s
  | [], _, _, hI => hI
  | a :: rest, b, s, hI => by
    simp only [fold, wp_bind]
    exact (step a rest b s hI).imp fun _ _ h => wp_fold step h

/-! ## What a program does to any state -/

/-- From every state, the program ends in a related one or fails within `E`. -/
def Does (R : σ → σ → Prop) (E : ε → Prop) (m : Tx ε σ α) : Prop := ∀ s, wp m (fun _ s' => R s s') E s

section Does

variable {R : σ → σ → Prop}

theorem Does.pure [Std.Refl R] (a : α) : Does R E (pure a : Tx ε σ α) := fun s => refl_of R s

theorem Does.get [Std.Refl R] : Does R E (Tx.get : Tx ε σ σ) := fun s => refl_of R s

theorem Does.fail {e : ε} (he : E e) : Does R E (Tx.fail e : Tx ε σ α) := fun _ => he

theorem Does.ensure [Std.Refl R] {c : Bool} {e : ε} (he : E e) : Does R E (Tx.ensure c e : Tx ε σ Unit) :=
  fun s => wp_ensure.2 ⟨fun _ => refl_of R s, fun _ => he⟩

theorem Does.writes {f : σ → σ} (h : ∀ s, R s (f s)) : Does R E (Tx.writes f : Tx ε σ Unit) := h

theorem Does.bind [IsTrans σ R] {m : Tx ε σ α} {f : α → Tx ε σ β} (hm : Does R E m) (hf : ∀ a, Does R E (f a)) :
    Does R E (m >>= f) := by
  intro s
  rw [wp_bind]
  exact (hm s).imp fun a s₁ h₁ => (hf a s₁).imp fun _ s₂ h₂ => trans_of R h₁ h₂

theorem Does.forEach [Std.Refl R] [IsTrans σ R] {f : α → Tx ε σ Unit} : ∀ {l : List α}, (∀ a ∈ l, Does R E (f a)) →
    Does R E (Tx.forEach l f)
  | [], _ => Does.pure ()
  | a :: _, h => (h a (by simp)).bind fun _ => Does.forEach fun b hb => h b (by simp [hb])

theorem Does.collect [Std.Refl R] [IsTrans σ R] {f : α → Tx ε σ β} : ∀ {l : List α}, (∀ a ∈ l, Does R E (f a)) →
    Does R E (Tx.collect l f)
  | [], _ => Does.pure []
  | a :: _, h => (h a (by simp)).bind fun _ =>
      (Does.collect fun b hb => h b (by simp [hb])).bind fun _ => Does.pure _

theorem Does.mono {R' : σ → σ → Prop} {m : Tx ε σ α} (hm : Does R E m) (h : ∀ s s', R s s' → R' s s')
    (hE : ∀ e, E e → E' e) : Does R' E' m := fun s => (hm s).mono (fun _ s' => h s s') hE

theorem Does.ite {c : Prop} [Decidable c] {m m' : Tx ε σ α} (h : c → Does R E m) (h' : ¬ c → Does R E m') :
    Does R E (if c then m else m') := by
  by_cases hc : c
  · rw [if_pos hc]; exact h hc
  · rw [if_neg hc]; exact h' hc

end Does

/-! ## Programs that do not look at the state -/

/-- From every state the program gives the same answer, or the same error, and leaves the state. -/
def Blind (m : Tx ε σ α) : Prop := ∃ answer : Except ε α, ∀ s, m s = answer.map fun a => (a, s)

theorem Blind.pure (a : α) : Blind (Pure.pure a : Tx ε σ α) := ⟨.ok a, fun _ => rfl⟩

theorem Blind.fail (e : ε) : Blind (Tx.fail e : Tx ε σ α) := ⟨.error e, fun _ => rfl⟩

theorem Blind.ensure (c : Bool) (e : ε) : Blind (Tx.ensure c e : Tx ε σ Unit) := by
  cases c with
  | true => exact Blind.pure ()
  | false => exact Blind.fail e

theorem Blind.bind {m : Tx ε σ α} {f : α → Tx ε σ β} (hm : Blind m) (hf : ∀ a, Blind (f a)) : Blind (m >>= f) := by
  obtain ⟨answer, hm⟩ := hm
  cases answer with
  | error e => exact ⟨.error e, fun s => by rw [bind_run, hm]; rfl⟩
  | ok a =>
    obtain ⟨answer, ha⟩ := hf a
    exact ⟨answer, fun s => by rw [bind_run, hm]; exact ha s⟩

theorem Blind.ite {c : Prop} [Decidable c] {m m' : Tx ε σ α} (h : Blind m) (h' : Blind m') :
    Blind (if c then m else m') := by
  split
  · exact h
  · exact h'

theorem Blind.forEach {f : α → Tx ε σ Unit} (hf : ∀ a, Blind (f a)) : ∀ l : List α, Blind (Tx.forEach l f)
  | [] => Blind.pure ()
  | a :: l => (hf a).bind fun _ => Blind.forEach hf l

theorem Blind.collect {f : α → Tx ε σ β} (hf : ∀ a, Blind (f a)) : ∀ l : List α, Blind (Tx.collect l f)
  | [] => Blind.pure []
  | a :: l => (hf a).bind fun _ => (Blind.collect hf l).bind fun _ => Blind.pure _

/-- What such a program answers once, it answers from every state. -/
theorem Blind.ok {m : Tx ε σ α} (h : Blind m) {a : α} {s₁ s₂ : σ} (hm : m s₁ = .ok (a, s₂)) :
    s₂ = s₁ ∧ ∀ s, m s = .ok (a, s) := by
  obtain ⟨answer, h⟩ := h
  rw [h] at hm
  cases answer with
  | error e => simp [Except.map] at hm
  | ok b =>
    simp only [Except.map, Except.ok.injEq, Prod.mk.injEq] at hm
    obtain ⟨rfl, rfl⟩ := hm
    exact ⟨rfl, h⟩

/-- The states before and after: an invariant of the one is an invariant of the other. -/
def Preserves (I : σ → Prop) (s s' : σ) : Prop := I s → I s'

instance (I : σ → Prop) : Std.Refl (Preserves I) := ⟨fun _ h => h⟩

instance (I : σ → Prop) : IsTrans σ (Preserves I) := ⟨fun _ _ _ h h' hs => h' (h hs)⟩

end Tx
