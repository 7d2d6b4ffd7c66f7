import Mathlib.Tactic

/-!
# Procedures that may throw

A method that works on its object and may throw leaves behind what it had done
by then. `EStateM` is that, and a body in `do` notation reads as the program's.
`Meets` is what a procedure guarantees when it returns and when it throws,
`Keeps` is one invariant throughout, and `within` runs a procedure of a part of
the state. `loop` and `collect` are given a number of turns, on which they do not
depend where a measure decreases.
-/

namespace Procedure

variable {ε σ τ α β : Type}

/-- **What a procedure guarantees** when it is started in a state that meets
`P`: if it returns, `Q` of what it returns and the state it leaves, and if it
throws, `E` of what it throws and the state it leaves. -/
def Meets (P : σ → Prop) (x : EStateM ε σ α) (Q : α → σ → Prop) (E : ε → σ → Prop) : Prop :=
  ∀ s, P s → match x s with
    | .ok a s' => Q a s'
    | .error e s' => E e s'

/-- A procedure keeps an invariant when it returns, and leaves `E` when it
throws. -/
abbrev Keeps (I : σ → Prop) (E : ε → σ → Prop) (x : EStateM ε σ α) : Prop :=
  Meets I x (fun _ => I) E

/-- An invariant that holds after a call, whether it has returned or thrown. -/
abbrev Preserves (I : σ → Prop) (x : EStateM ε σ α) : Prop := Keeps I (fun _ => I) x

/-- A procedure leads from `P` to `I`, whether it returns or throws. -/
abbrev Leads (P : σ → Prop) (x : EStateM ε σ α) (I : σ → Prop) : Prop :=
  Meets P x (fun _ => I) (fun _ => I)

/-- A procedure leads from `P` to `I`, and throws exactly if it is to. -/
abbrev Tells (b : Bool) (P : σ → Prop) (x : EStateM ε σ α) (I : σ → Prop) : Prop :=
  Meets P x (fun _ s => b = false ∧ I s) (fun _ s => b = true ∧ I s)

variable {P : σ → Prop} {Q : α → σ → Prop} {E : ε → σ → Prop} {I : σ → Prop} {x : EStateM ε σ α}

namespace Meets

theorem of_ok (h : Meets P x Q E) {s s' : σ} {a : α} (hs : P s) (hx : x s = .ok a s') : Q a s' := by
  have hm := h s hs
  rw [hx] at hm
  exact hm

theorem pre {P' : σ → Prop} (h : Meets P x Q E) (hP : ∀ s, P' s → P s) : Meets P' x Q E :=
  fun s hs => h s (hP s hs)

theorem post {Q' : α → σ → Prop} {E' : ε → σ → Prop} (h : Meets P x Q E)
    (hQ : ∀ a s, Q a s → Q' a s) (hE : ∀ e s, E e s → E' e s) : Meets P x Q' E' := by
  intro s hs
  have hm := h s hs
  cases hx : x s with
  | ok a s' =>
    rw [hx] at hm
    exact hQ a s' hm
  | error e s' =>
    rw [hx] at hm
    exact hE e s' hm

theorem mono {J : σ → Prop} (h : Leads P x I) (hIJ : ∀ s, I s → J s) : Leads P x J :=
  h.post (fun _ => hIJ) fun _ => hIJ

theorem each (h : ∀ s, P s → Meets (· = s) x Q E) : Meets P x Q E := fun s hs => h s hs s rfl

theorem starting (h : Meets P x Q E) {s : σ} (hs : P s) : Meets (· = s) x Q E :=
  h.pre fun _ hs' => hs' ▸ hs

theorem pure {a : α} (h : ∀ s, P s → Q a s) : Meets P (pure a : EStateM ε σ α) Q E :=
  fun s hs => h s hs

theorem throw {e : ε} (h : ∀ s, P s → E e s) : Meets P (throw e : EStateM ε σ α) Q E :=
  fun s hs => h s hs

theorem get {Q : σ → σ → Prop} (h : ∀ s, P s → Q s s) : Meets P (get : EStateM ε σ σ) Q E :=
  fun s hs => h s hs

theorem modify {f : σ → σ} {Q : Unit → σ → Prop} (h : ∀ s, P s → Q () (f s)) :
    Meets P (modify f : EStateM ε σ Unit) Q E :=
  fun s hs => h s hs

theorem modifyGet {f : σ → α × σ} (h : ∀ s, P s → Q (f s).1 (f s).2) :
    Meets P (modifyGet f : EStateM ε σ α) Q E :=
  fun s hs => h s hs

/-- **Sequencing.** What follows starts where the first part returns. -/
theorem bind {f : α → EStateM ε σ β} {R : β → σ → Prop} (hx : Meets P x Q E)
    (hf : ∀ a, Meets (Q a) (f a) R E) : Meets P (x >>= f) R E := by
  intro s hs
  have hm := hx s hs
  show match EStateM.bind x f s with
    | .ok b s' => R b s'
    | .error e s' => E e s'
  unfold EStateM.bind
  cases hxs : x s with
  | ok a s' =>
    rw [hxs] at hm
    exact hf a s' hm
  | error =>
    rw [hxs] at hm
    exact hm

theorem read {f : σ → EStateM ε σ α} (h : ∀ s, P s → Meets P (f s) Q E) :
    Meets P (.get >>= f) Q E :=
  fun s hs => h s hs s hs

theorem look {f : σ → EStateM ε σ α} (h : ∀ s, P s → Meets (· = s) (f s) Q E) :
    Meets P (.get >>= f) Q E :=
  fun s hs => h s hs s rfl

/-- **Catching.** The handler starts where the exception left the state. -/
theorem tryCatch {handler : ε → EStateM ε σ α} {F : ε → σ → Prop} (hx : Meets P x Q F)
    (hh : ∀ e, Meets (F e) (handler e) Q E) :
    Meets P (.tryCatch x handler) Q E := by
  intro s hs
  have hm := hx s hs
  show match EStateM.tryCatch x handler s with
    | .ok b s' => Q b s'
    | .error e s' => E e s'
  unfold EStateM.tryCatch
  cases hxs : x s with
  | ok =>
    rw [hxs] at hm
    exact hm
  | error e s' =>
    rw [hxs] at hm
    exact hh e s' hm

theorem ite {c : Prop} [Decidable c] {y : EStateM ε σ α} (hx : c → Meets P x Q E)
    (hy : ¬c → Meets P y Q E) : Meets P (if c then x else y) Q E := by
  by_cases h : c
  · rw [if_pos h]
    exact hx h
  · rw [if_neg h]
    exact hy h

/-- A loop: what holds before the elements that are left holds, at the end,
before none. -/
theorem forM {as : List α} {f : α → EStateM ε σ PUnit} {L : List α → σ → Prop}
    (hf : ∀ a as, Meets (L (a :: as)) (f a) (fun _ => L as) E) :
    Meets (L as) (as.forM f) (fun _ => L []) E := by
  induction as with
  | nil => exact pure fun s hs => hs
  | cons a as ih => exact bind (hf a as) fun _ => ih

end Meets

namespace Keeps

theorem trivial (x : EStateM ε σ α) : Keeps (fun _ => True) (fun _ _ => True) x := by
  intro s _
  cases x s <;> exact .intro

theorem pure (a : α) : Keeps I E (Pure.pure a : EStateM ε σ α) := Meets.pure fun _ hs => hs

theorem get : Keeps I E (MonadState.get : EStateM ε σ σ) := Meets.get fun _ hs => hs

theorem bind {f : α → EStateM ε σ β} (hx : Keeps I E x) (hf : ∀ a, Keeps I E (f a)) :
    Keeps I E (x >>= f) :=
  Meets.bind hx hf

theorem tryCatch {handler : ε → EStateM ε σ α} (hx : Preserves I x)
    (hh : ∀ e, Keeps I E (handler e)) : Keeps I E (MonadExcept.tryCatch x handler) :=
  Meets.tryCatch hx hh

theorem ite {c : Prop} [Decidable c] {y : EStateM ε σ α} (hx : Keeps I E x)
    (hy : Keeps I E y) : Keeps I E (if c then x else y) :=
  Meets.ite (fun _ => hx) fun _ => hy

theorem forM {as : List α} {f : α → EStateM ε σ PUnit} (hf : ∀ a, Keeps I E (f a)) :
    Keeps I E (as.forM f) :=
  Meets.forM (L := fun _ => I) fun a _ => hf a

end Keeps

def after (x : EStateM ε σ α) (s : σ) : σ :=
  match x s with
  | .ok _ s' => s'
  | .error _ s' => s'

theorem after_of_ok {s s' : σ} {a : α} {x : EStateM ε σ α} (h : x s = .ok a s') :
    after x s = s' := by
  unfold after
  rw [h]

def outcome (x : EStateM ε σ α) (s : σ) : Except ε α :=
  match x s with
  | .ok a _ => .ok a
  | .error e _ => .error e

theorem after_map (f : α → β) (x : EStateM ε σ α) (s : σ) : after (f <$> x) s = after x s := by
  show after (.map f x) s = after x s
  unfold after EStateM.map
  cases x s <;> rfl

theorem Meets.after (h : Leads P x I) {s : σ} (hs : P s) :
    I (Procedure.after x s) := by
  have hm := h s hs
  unfold Procedure.after
  cases hx : x s with
  | ok | error =>
    rw [hx] at hm
    exact hm

theorem Keeps.after (h : Preserves I x) {s : σ} (hs : I s) : I (Procedure.after x s) :=
  Meets.after h hs

def within (get : σ → τ) (put : τ → σ → σ) (x : EStateM ε τ α) : EStateM ε σ α := fun s =>
  match x (get s) with
  | .ok a t => .ok a (put t s)
  | .error e t => .error e (put t s)

theorem Meets.within {get : σ → τ} {put : τ → σ → σ} {y : EStateM ε τ α}
    (h : ∀ s, P s → match y (get s) with
      | .ok a t => Q a (put t s)
      | .error e t => E e (put t s)) :
    Meets P (Procedure.within get put y) Q E := by
  intro s hs
  have hm := h s hs
  unfold Procedure.within
  cases hy : y (get s) with
  | ok | error =>
    rw [hy] at hm
    exact hm

/-- **The frame rule.** A procedure of a part keeps what is true of the whole
whenever it keeps what that says of the part. -/
theorem Keeps.within {get : σ → τ} {put : τ → σ → σ} {J : τ → Prop} {F : ε → τ → Prop}
    {x : EStateM ε τ α} (hx : Keeps J F x) (hget : ∀ s, I s → J (get s))
    (hput : ∀ s t, I s → J t → I (put t s)) (hE : ∀ e s t, I s → F e t → E e (put t s)) :
    Keeps I E (within get put x) := by
  intro s hs
  have hm := hx (get s) (hget s hs)
  unfold Procedure.within
  cases hxs : x (get s) with
  | ok _ t =>
    rw [hxs] at hm
    exact hput s t hs hm
  | error e t =>
    rw [hxs] at hm
    exact hE e s t hs hm

/-- Whatever a procedure does to a part, it keeps what does not look at that
part. -/
theorem Keeps.frame {get : σ → τ} {put : τ → σ → σ} (x : EStateM ε τ α)
    (hput : ∀ s t, I s → I (put t s)) (hE : ∀ e s, I s → E e s) :
    Keeps I E (Procedure.within get put x) :=
  (Keeps.trivial x).within (fun _ _ => True.intro) (fun s t hs _ => hput s t hs)
    (fun e s t hs _ => hE e _ (hput s t hs))

def rethrow {ε' : Type} (f : ε → ε') (x : EStateM ε σ α) : EStateM ε' σ α := fun s =>
  match x s with
  | .ok a s' => .ok a s'
  | .error e s' => .error (f e) s'

instance liftExcept : MonadLift (Except ε) (EStateM ε σ) where
  monadLift
    | .ok a => .pure a
    | .error e => throw e

theorem Meets.lift {y : Except ε α} (hok : ∀ a, y = .ok a → ∀ s, P s → Q a s)
    (her : ∀ e, y = .error e → ∀ s, P s → E e s) :
    Meets P (liftM y : EStateM ε σ α) Q E := by
  cases y with
  | ok a => exact fun s hs => hok a rfl s hs
  | error e => exact fun s hs => her e rfl s hs

def whenever (c : Prop) [Decidable c] (x : EStateM ε σ Unit) : EStateM ε σ Unit :=
  if c then x else .pure ()

/-! ## What a procedure leaves alone -/

/-- A procedure leaves alone what `f` reads of the state, whether it returns
or throws. -/
def Leaves (f : σ → β) (x : EStateM ε σ α) : Prop :=
  ∀ b, Keeps (fun s => f s = b) (fun _ s => f s = b) x

namespace Leaves

variable {γ : Type} {f : σ → γ}

theorem of_ok {s s' : σ} {a : α} (h : Leaves f x) (hx : x s = .ok a s') : f s' = f s :=
  (h (f s)).of_ok rfl hx

/-- What is left alone is the same whether the procedure returns or throws. -/
theorem after_eq (h : Leaves f x) (s : σ) : f (after x s) = f s := by
  have hrun := h (f s) s rfl
  unfold after
  cases hx : x s with
  | ok | error =>
    rw [hx] at hrun
    exact hrun

theorem comp {δ : Type} (h : Leaves f x) (g : γ → δ) : Leaves (fun s => g (f s)) x := by
  rintro b s rfl
  have hrun := h (f s) s rfl
  cases hx : x s with
  | ok | error =>
    rw [hx] at hrun
    exact congrArg g hrun

theorem pure (a : α) : Leaves f (Pure.pure a : EStateM ε σ α) := fun _ => .pure a

theorem throw (e : ε) : Leaves f (throw e : EStateM ε σ α) :=
  fun _ => .throw fun _ hs => hs

theorem get : Leaves f (MonadState.get : EStateM ε σ σ) := fun _ => .get

theorem modify {g : σ → σ} (h : ∀ s, f (g s) = f s) : Leaves f (modify g : EStateM ε σ Unit) :=
  fun _ => .modify fun s hs => (h s).trans hs

theorem lift (y : Except ε α) : Leaves f (liftM y : EStateM ε σ α) :=
  fun _ => .lift (fun _ _ _ hs => hs) fun _ _ _ hs => hs

theorem bind {g : α → EStateM ε σ β} (hx : Leaves f x) (hg : ∀ a, Leaves f (g a)) :
    Leaves f (x >>= g) :=
  fun c => .bind (hx c) fun a => hg a c

theorem ite {c : Prop} [Decidable c] {y : EStateM ε σ α} (hx : Leaves f x) (hy : Leaves f y) :
    Leaves f (if c then x else y) :=
  fun b => .ite (hx b) (hy b)

theorem whenever {c : Prop} [Decidable c] {x : EStateM ε σ Unit} (hx : Leaves f x) :
    Leaves f (whenever c x) :=
  ite hx (pure ())

end Leaves

/-! ## Following a run -/

section Runs

variable {s s' : σ} {a : α} {e : ε} {f : α → EStateM ε σ β}

theorem bind_ok (h : x s = .ok a s') : (x >>= f) s = f a s' := by
  show EStateM.bind x f s = f a s'
  unfold EStateM.bind
  rw [h]

theorem get_bind (f : σ → EStateM ε σ β) (s : σ) : (MonadState.get >>= f) s = f s s := rfl

theorem bind_error (h : x s = .error e s') : (x >>= f) s = .error e s' := by
  show EStateM.bind x f s = .error e s'
  unfold EStateM.bind
  rw [h]

theorem Leaves.after_bind {γ : Type} {f : σ → γ} {g : α → EStateM ε σ β}
    (hg : ∀ a, Leaves f (g a)) (s : σ) : f (after (x >>= g) s) = f (after x s) := by
  cases hx : x s with
  | ok a s' =>
    have haf : after (x >>= g) s = after (g a) s' := by
      unfold after
      rw [bind_ok hx]
    rw [haf, (hg a).after_eq]
    unfold after
    rw [hx]
  | error =>
    unfold after
    rw [bind_error hx, hx]

theorem map_ok {f : α → β} (h : x s = .ok a s') : (f <$> x) s = .ok (f a) s' := by
  show EStateM.map f x s = .ok (f a) s'
  unfold EStateM.map
  rw [h]

theorem map_error {f : α → β} (h : x s = .error e s') : (f <$> x) s = .error e s' := by
  show EStateM.map f x s = .error e s'
  unfold EStateM.map
  rw [h]

theorem of_bind_ok {b : β} (h : (x >>= f) s = .ok b s') :
    ∃ a s₁, x s = .ok a s₁ ∧ f a s₁ = .ok b s' := by
  change EStateM.bind x f s = .ok b s' at h
  unfold EStateM.bind at h
  cases hx : x s with
  | ok a s₁ =>
    rw [hx] at h
    exact ⟨a, s₁, rfl, h⟩
  | error =>
    rw [hx] at h
    cases h

theorem of_lift_ok {y : Except ε α} (h : (liftM y : EStateM ε σ α) s = .ok a s') :
    y = .ok a ∧ s = s' := by
  cases y with
  | ok =>
    cases h
    exact ⟨rfl, rfl⟩
  | error => cases h

theorem modifyGet_ok {f : σ → α × σ} (h : f s = (a, s')) :
    (modifyGet f : EStateM ε σ α) s = .ok a s' := by
  show EStateM.Result.ok (f s).1 (f s).2 = _
  rw [h]

theorem within_ok {get : σ → τ} {put : τ → σ → σ} {y : EStateM ε τ α} {t : τ}
    (h : y (get s) = .ok a t) : within get put y s = .ok a (put t s) := by
  unfold within
  rw [h]

theorem within_error {get : σ → τ} {put : τ → σ → σ} {y : EStateM ε τ α} {t : τ}
    (h : y (get s) = .error e t) : within get put y s = .error e (put t s) := by
  unfold within
  rw [h]

end Runs

/-! ## Loops -/

/-- **A loop that its body ends**: the body runs until it returns something,
for at most the given number of turns; `idle` is what the loop returns if
they do not suffice. -/
def loop (idle : α) (body : EStateM ε σ (Option α)) : ℕ → EStateM ε σ α
  | 0 => .pure idle
  | turns + 1 => do
    match ← body with
    | some a => .pure a
    | none => loop idle body turns

section Loop

variable {idle : α} {body : EStateM ε σ (Option α)} {measure : σ → ℕ} {s s' : σ}

theorem loop_some {turns : ℕ} {a : α} (h : body s = .ok (some a) s') :
    loop idle body (turns + 1) s = .ok a s' := by
  unfold loop
  rw [bind_ok h]
  rfl

theorem loop_none {turns : ℕ} (h : body s = .ok none s') :
    loop idle body (turns + 1) s = loop idle body turns s' := by
  rw [loop, bind_ok h]

theorem loop_error {turns : ℕ} {e : ε} (h : body s = .error e s') :
    loop idle body (turns + 1) s = .error e s' := by
  rw [loop, bind_error h]

/-- **A loop keeps what its body keeps** while it goes on, and meets what the
body meets when it returns. -/
theorem Meets.loop {P : σ → Prop} {Q : α → σ → Prop} {E : ε → σ → Prop} (hil : ∀ s, P s → Q idle s)
    (hbd : Meets P body (fun r s => r.elim (P s) fun a => Q a s) E) (turns : ℕ) :
    Meets P (loop idle body turns) Q E := by
  induction turns with
  | zero => exact hil
  | succ _ ih =>
    refine .bind hbd fun r => ?_
    cases r with
    | none => exact ih
    | some => exact .pure fun _ hs => hs

/-- The number of turns does not matter once it exceeds a measure that every
turn decreases. -/
theorem loop_eq_of_measure_lt (hms : ∀ s s', body s = .ok none s' → measure s' < measure s)
    {m n : ℕ} (hm : measure s < m) (hn : measure s < n) :
    loop idle body m s = loop idle body n s := by
  induction m generalizing n s with
  | zero => omega
  | succ _ ih =>
    obtain ⟨_, rfl⟩ : ∃ k, n = k + 1 := ⟨n - 1, by omega⟩
    cases hbd : body s with
    | error => rw [loop_error hbd, loop_error hbd]
    | ok r s' =>
      cases r with
      | some => rw [loop_some hbd, loop_some hbd]
      | none =>
        have hlt := hms s s' hbd
        rw [loop_none hbd, loop_none hbd]
        exact ih (by omega) (by omega)

end Loop

/-- **A loop that calls a procedure for as long as it finds something**, and
returns all that was found, for at most the given number of calls. -/
def collect (x : EStateM ε σ (Option α)) : ℕ → EStateM ε σ (List α)
  | 0 => .pure []
  | turns + 1 => do
    match ← x with
    | some a => do
      let rest ← collect x turns
      .pure (a :: rest)
    | none => .pure []

section Collect

variable {x : EStateM ε σ (Option α)} {s s' s'' : σ} {turns : ℕ}

theorem collect_none (h : x s = .ok none s') : collect x (turns + 1) s = .ok [] s' := by
  unfold collect
  rw [bind_ok h]
  rfl

theorem collect_some {a : α} {as : List α} (h : x s = .ok (some a) s')
    (hrs : collect x turns s' = .ok as s'') :
    collect x (turns + 1) s = .ok (a :: as) s'' := by
  unfold collect
  rw [bind_ok h]
  show (collect x turns >>= fun rest => .pure (a :: rest)) s' = _
  rw [bind_ok hrs]
  rfl

/-- A collection may start from any state in which the first call does the
same. -/
theorem collect_congr {t : σ} (h : x s = x t) :
    collect x (turns + 1) s = collect x (turns + 1) t := by
  show EStateM.bind x _ s = EStateM.bind x _ t
  unfold EStateM.bind
  rw [h]

end Collect

end Procedure
