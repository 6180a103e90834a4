/-! Computations that may fail and that note events on their way; what was noted before a failure
stays. Main statements: the outcome of a sequence is the sequence of the outcomes, so a proof about
outcomes may forget the events. -/

namespace Interop

inductive Level
  | debug
  | info
  | warn
deriving DecidableEq, Repr, Inhabited

structure Event where
  level : Level
  message : String
deriving DecidableEq, Repr, Inhabited

/-- The events of a computation, and its result or the reason why there is none. -/
structure Logged (ε α : Type) where
  events : List Event
  outcome : Except ε α

namespace Logged

variable {ε α β : Type}

def ofExcept (outcome : Except ε α) : Logged ε α := ⟨[], outcome⟩

def note (level : Level) (message : String) : Logged ε Unit := ⟨[⟨level, message⟩], .ok ()⟩

def fail (error : ε) : Logged ε α := ⟨[], .error error⟩

/-- Goes on with the result, if there is one. -/
def andThen (x : Logged ε α) (next : α → Logged ε β) : Logged ε β :=
  match x.outcome with
  | .error error => ⟨x.events, .error error⟩
  | .ok a => ⟨x.events ++ (next a).events, (next a).outcome⟩

instance : Monad (Logged ε) where
  pure a := ⟨[], .ok a⟩
  bind := andThen

instance : MonadLift (Except ε) (Logged ε) where
  monadLift := ofExcept

/-- The same computation with another error. -/
def mapError {δ : Type} (f : ε → δ) (x : Logged ε α) : Logged δ α :=
  ⟨x.events, x.outcome.mapError f⟩

/-- The results for every item of a list, up to the first failure. -/
def forEach (items : List α) (f : α → Logged ε β) : Logged ε (List β) :=
  match items with
  | [] => pure []
  | a :: rest => do
    let b ← f a
    let others ← forEach rest f
    return b :: others

@[simp] theorem outcome_pure (a : α) : (pure a : Logged ε α).outcome = .ok a := rfl

@[simp] theorem outcome_ofExcept (x : Except ε α) : (ofExcept x).outcome = x := rfl

@[simp] theorem outcome_monadLift (x : Except ε α) :
    (MonadLift.monadLift x : Logged ε α).outcome = x := rfl

@[simp] theorem outcome_note (level : Level) (message : String) :
    (note level message : Logged ε Unit).outcome = .ok () := rfl

/-- The outcome of a sequence is the sequence of the outcomes. -/
@[simp] theorem outcome_bind (x : Logged ε α) (next : α → Logged ε β) :
    (x >>= next).outcome = x.outcome >>= fun a => (next a).outcome := by
  show (andThen x next).outcome = _
  unfold andThen
  cases x.outcome <;> rfl

/-- The outcome for a list is the outcome for each of its items in turn. -/
theorem outcome_forEach (items : List α) (f : α → Logged ε β) :
    (forEach items f).outcome = items.mapM fun a => (f a).outcome := by
  induction items with
  | nil => rfl
  | cons a rest ih =>
      simp only [forEach, List.mapM_cons, outcome_bind, ih, outcome_pure]
      rfl

end Logged

end Interop
