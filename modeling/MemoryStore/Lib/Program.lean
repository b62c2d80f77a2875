/-
Programs of atomic steps on a shared state. Between two steps anything may happen:
the program may be cut, or others may step; what a program guarantees is stated
with an invariant of every state it goes through.
-/
import Mathlib

/-- A program: its steps carry a label, may take an input from their environment, and may have to wait (none). -/
inductive Program (L ι ε σ α : Type) : Type 1 where
  | ret (a : α)
  | fail (e : ε)
  | step {β : Type} (label : L) (f : ι → σ → Option (β × σ)) (next : β → Program L ι ε σ α)

namespace Program

variable {L ι ε σ α β γ : Type}

protected def bind : Program L ι ε σ α → (α → Program L ι ε σ β) → Program L ι ε σ β
  | ret a, f => f a
  | fail e, _ => fail e
  | step label g next, f => step label g fun b => (next b).bind f

instance : Monad (Program L ι ε σ) where
  pure := ret
  bind := Program.bind

/-- What handles an error of a program. -/
def orElse : Program L ι ε σ α → (ε → Program L ι ε σ α) → Program L ι ε σ α
  | ret a, _ => ret a
  | fail e, handler => handler e
  | step label g next, handler => step label g fun b => (next b).orElse handler

/-- One step. -/
def act (label : L) (f : ι → σ → Option (α × σ)) : Program L ι ε σ α := step label f ret

/-- A step that may end with an error. -/
def attempt (label : L) (f : ι → σ → Option (Except ε α × σ)) : Program L ι ε σ α :=
  step label f fun
    | .ok a => ret a
    | .error e => fail e

/-- The first error of a result. -/
def lift : Except ε α → Program L ι ε σ α
  | .ok a => ret a
  | .error e => fail e

def forEach : List β → (β → Program L ι ε σ Unit) → Program L ι ε σ Unit
  | [], _ => ret ()
  | b :: l, f => (f b).bind fun _ => forEach l f

/-! ## Running -/

/-- One step of a program, and of the state. -/
def advance (i : ι) : Program L ι ε σ α → σ → Option (Program L ι ε σ α × σ)
  | step _ f next, s => (f i s).map fun (b, s') => (next b, s')
  | _, _ => none

/-- What some steps of a program alone lead to; the program may be cut there. -/
def after : List ι → Program L ι ε σ α → σ → Program L ι ε σ α × σ
  | [], p, s => (p, s)
  | i :: inputs, p, s =>
    match p.advance i s with
    | none => (p, s)
    | some (p', s') => after inputs p' s'

/-- An uninterrupted run; none when it has to wait. -/
def finish : Program L ι ε σ α → (ℕ → ι) → σ → Option (Except ε α × σ)
  | ret a, _, s => some (.ok a, s)
  | fail e, _, s => some (.error e, s)
  | step _ f next, inputs, s =>
    match f (inputs 0) s with
    | none => none
    | some (b, s') => (next b).finish (fun n => inputs (n + 1)) s'

/-! ## What a program guarantees -/

/-- From the state, no step waits, the invariant holds wherever the program may be cut (it sees the label of the step
that comes next), and the program ends as said. -/
def wp (V : ι → Prop) (I : L → σ → Prop) (Q : α → σ → Prop) (E : ε → σ → Prop) : Program L ι ε σ α → σ → Prop
  | ret a, s => Q a s
  | fail e, s => E e s
  | step label f next, s => I label s ∧ ∀ i, V i → ∃ b s', f i s = some (b, s') ∧ (next b).wp V I Q E s'

variable {V : ι → Prop} {I : L → σ → Prop} {Q : α → σ → Prop} {E : ε → σ → Prop}

@[simp] theorem wp_pure {a : α} {s : σ} : wp V I Q E (pure a : Program L ι ε σ α) s ↔ Q a s := Iff.rfl

@[simp] theorem wp_fail {e : ε} {s : σ} : wp V I Q E (fail e : Program L ι ε σ α) s ↔ E e s := Iff.rfl

theorem wp_bind {Q : β → σ → Prop} {f : α → Program L ι ε σ β} : ∀ {p : Program L ι ε σ α} {s : σ},
    wp V I Q E (p >>= f) s ↔ wp V I (fun a s' => wp V I Q E (f a) s') E p s
  | ret _, _ => Iff.rfl
  | fail _, _ => Iff.rfl
  | step label g next, s => by
    show (I label s ∧ ∀ i, V i → ∃ b s', g i s = some (b, s') ∧ wp V I Q E (next b >>= f) s') ↔
      I label s ∧ ∀ i, V i → ∃ b s', g i s = some (b, s') ∧ wp V I (fun a s' => wp V I Q E (f a) s') E (next b) s'
    simp only [wp_bind]

theorem wp_orElse {handler : ε → Program L ι ε σ α} : ∀ {p : Program L ι ε σ α} {s : σ},
    wp V I Q E (p.orElse handler) s ↔ wp V I Q (fun e s' => wp V I Q E (handler e) s') p s
  | ret _, _ => Iff.rfl
  | fail _, _ => Iff.rfl
  | step label g next, s => by
    show (I label s ∧ ∀ i, V i → ∃ b s', g i s = some (b, s') ∧ wp V I Q E ((next b).orElse handler) s') ↔
      I label s ∧ ∀ i, V i → ∃ b s', g i s = some (b, s') ∧
        wp V I Q (fun e s' => wp V I Q E (handler e) s') (next b) s'
    simp only [wp_orElse]

theorem wp.mono {Q' : α → σ → Prop} {E' : ε → σ → Prop} (hQ : ∀ a s, Q a s → Q' a s) (hE : ∀ e s, E e s → E' e s) :
    ∀ {p : Program L ι ε σ α} {s : σ}, wp V I Q E p s → wp V I Q' E' p s
  | ret _, _, h => hQ _ _ h
  | fail _, _, h => hE _ _ h
  | step _ _ _, _, h => ⟨h.1, fun i hi =>
    let ⟨b, s', hf, hb⟩ := h.2 i hi
    ⟨b, s', hf, hb.mono hQ hE⟩⟩

theorem wp.imp {Q' : α → σ → Prop} {p : Program L ι ε σ α} {s : σ} (h : wp V I Q E p s) (hQ : ∀ a s, Q a s → Q' a s) :
    wp V I Q' E p s := h.mono hQ fun _ _ h => h

theorem wp_attempt {label : L} {f : ι → σ → Option (Except ε α × σ)} {s : σ} :
    wp V I Q E (attempt label f : Program L ι ε σ α) s ↔
      I label s ∧ ∀ i, V i → ∃ r s', f i s = some (r, s') ∧
        match r with
        | .ok a => Q a s'
        | .error e => E e s' := by
  refine and_congr_right fun _ => forall_congr' fun i => forall_congr' fun _ => exists_congr fun r =>
    exists_congr fun s' => ?_
  cases r <;> rfl

theorem wp_lift {r : Except ε α} {s : σ} :
    wp V I Q E (lift r : Program L ι ε σ α) s ↔ match r with
      | .ok a => Q a s
      | .error e => E e s := by
  cases r <;> rfl

/-- A loop keeps what each round keeps. -/
theorem wp_forEach {f : β → Program L ι ε σ Unit} {J : List β → σ → Prop} :
    ∀ {l : List β} {s : σ}, (∀ b l s, J (b :: l) s → wp V I (fun _ s' => J l s') E (f b) s) → J l s →
      wp V I (fun _ s' => J [] s') E (forEach l f : Program L ι ε σ Unit) s
  | [], _, _, h => h
  | b :: l, s, hf, h => by
    show wp V I _ E (f b >>= fun _ => forEach l f) s
    rw [wp_bind]
    exact (hf b l s h).imp fun _ s' h' => wp_forEach hf h'

/-- One step of a program keeps its promise. -/
theorem wp.advance {p p' : Program L ι ε σ α} {s s' : σ} {i : ι} (h : wp V I Q E p s) (hi : V i)
    (hadv : p.advance i s = some (p', s')) : wp V I Q E p' s' := by
  cases p with
  | ret a => cases hadv
  | fail e => cases hadv
  | step label f next =>
    obtain ⟨b, s'', hf, hb⟩ := h.2 i hi
    simp only [Program.advance, hf, Option.map_some, Option.some.injEq, Prod.mk.injEq] at hadv
    obtain ⟨rfl, rfl⟩ := hadv
    exact hb

/-- Wherever a program is cut, the rest of it keeps its promise. -/
theorem wp.after : ∀ {inputs : List ι} {p : Program L ι ε σ α} {s : σ}, (∀ i ∈ inputs, V i) → wp V I Q E p s →
    wp V I Q E (p.after inputs s).1 (p.after inputs s).2
  | [], _, _, _, h => h
  | i :: inputs, p, s, hV, h => by
    rw [Program.after]
    cases hadv : p.advance i s with
    | none => exact h
    | some r =>
      exact (h.advance (hV i List.mem_cons_self) hadv).after fun j hj => hV j (List.mem_cons_of_mem i hj)

/-- An uninterrupted run ends, as promised. -/
theorem wp.finish : ∀ {p : Program L ι ε σ α} {inputs : ℕ → ι} {s : σ}, (∀ n, V (inputs n)) → wp V I Q E p s →
    ∃ r s', p.finish inputs s = some (r, s') ∧
      match r with
      | .ok a => Q a s'
      | .error e => E e s'
  | .ret a, _, s, _, h => ⟨.ok a, s, rfl, h⟩
  | .fail e, _, s, _, h => ⟨.error e, s, rfl, h⟩
  | .step _ f next, inputs, s, hV, h => by
    obtain ⟨b, s', hf, hb⟩ := h.2 (inputs 0) (hV 0)
    obtain ⟨r, s'', hr⟩ := hb.finish (show ∀ n, V ((fun n => inputs (n + 1)) n) from fun n => hV (n + 1))
    refine ⟨r, s'', ?_⟩
    rw [Program.finish, hf]
    exact hr

/-- What holds wherever the program may be cut, and where it ends, holds now. -/
theorem wp.now {J : σ → Prop} (hI : ∀ l s, I l s → J s) (hQ : ∀ a s, Q a s → J s) (hE : ∀ e s, E e s → J s)
    {p : Program L ι ε σ α} {s : σ} (h : wp V I Q E p s) : J s := by
  cases p with
  | ret a => exact hQ a s h
  | fail e => exact hE e s h
  | step label f next => exact hI label s h.1

theorem wp.inputs {V' : ι → Prop} (hV : ∀ i, V' i → V i) : ∀ {p : Program L ι ε σ α} {s : σ}, wp V I Q E p s →
    wp V' I Q E p s
  | ret _, _, h => h
  | fail _, _, h => h
  | step _ _ _, _, h => ⟨h.1, fun i hi =>
    let ⟨b, s', hf, hb⟩ := h.2 i (hV i hi)
    ⟨b, s', hf, hb.inputs hV⟩⟩

/-! ## What every step of a program does -/

/-- The label of the step that comes next. -/
def label? : Program L ι ε σ α → Option L
  | step label _ _ => some label
  | _ => none

/-- Every step of the program, whatever it is given, in whatever state, changes the state as said. -/
def Each (G : L → σ → σ → Prop) : Program L ι ε σ α → Prop
  | ret _ => True
  | fail _ => True
  | step label f next => (∀ i s b s', f i s = some (b, s') → G label s s') ∧ ∀ b, (next b).Each G

variable {G : L → σ → σ → Prop}

theorem Each.bind {f : α → Program L ι ε σ β} : ∀ {p : Program L ι ε σ α}, p.Each G → (∀ a, (f a).Each G) →
    (p >>= f).Each G
  | ret a, _, hf => hf a
  | fail _, _, _ => trivial
  | step _ _ _, h, hf => ⟨h.1, fun b => (h.2 b).bind hf⟩

theorem Each.orElse {handler : ε → Program L ι ε σ α} : ∀ {p : Program L ι ε σ α}, p.Each G →
    (∀ e, (handler e).Each G) → (p.orElse handler).Each G
  | ret _, _, _ => trivial
  | fail e, _, hh => hh e
  | step _ _ _, h, hh => ⟨h.1, fun b => (h.2 b).orElse hh⟩

theorem Each.attempt {label : L} {f : ι → σ → Option (Except ε α × σ)}
    (h : ∀ i s r s', f i s = some (r, s') → G label s s') : (attempt label f : Program L ι ε σ α).Each G := by
  refine ⟨h, fun r => ?_⟩
  cases r <;> trivial

theorem Each.lift {r : Except ε α} : (lift r : Program L ι ε σ α).Each G := by
  cases r <;> trivial

theorem Each.forEach {f : β → Program L ι ε σ Unit} (h : ∀ b, (f b).Each G) : ∀ {l : List β},
    (forEach l f : Program L ι ε σ Unit).Each G
  | [] => trivial
  | b :: _ => Each.bind (h b) fun _ => Each.forEach h

theorem Each.advance {p p' : Program L ι ε σ α} {s s' : σ} {i : ι} (h : p.Each G)
    (hadv : p.advance i s = some (p', s')) : p'.Each G ∧ ∃ label, p.label? = some label ∧ G label s s' := by
  cases p with
  | ret a => cases hadv
  | fail e => cases hadv
  | step label f next =>
    simp only [Program.advance, Option.map_eq_some_iff, Prod.mk.injEq] at hadv
    obtain ⟨⟨b, s''⟩, hf, rfl, rfl⟩ := hadv
    exact ⟨h.2 b, label, rfl, h.1 i s b s'' hf⟩

end Program
