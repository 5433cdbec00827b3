/-! What a service throws. -/

namespace Finverse

/-- An exception, by the status it is answered with. -/
inductive HttpError
  | badRequest (message : String)
  | forbidden (message : String)
  | notFound (message : String)
  | conflict (message : String)
  | tooManyRequests (message : String)
  | unavailable (message : String)
  | internal (message : String)
  deriving DecidableEq, Repr

variable {ε α β : Type}

/-- A check that throws. -/
def throwIf (p : Prop) [Decidable p] (e : ε) : Except ε Unit := if p then .error e else .ok ()

/-- What a lookup found, or an exception. -/
def orThrow (found : Option α) (e : ε) : Except ε α :=
  match found with
  | none => .error e
  | some a => .ok a

/-- A computation that succeeds succeeded in its first part. -/
theorem bind_ok {x : Except ε α} {f : α → Except ε β} {b : β} (h : x >>= f = .ok b) :
    ∃ a, x = .ok a ∧ f a = .ok b := by
  cases x with
  | error e => cases h
  | ok a => exact ⟨a, rfl, h⟩

theorem throwIf_ok {p : Prop} [Decidable p] {e : ε} {u : Unit} (h : throwIf p e = .ok u) : ¬p := by
  intro hp
  rw [throwIf, if_pos hp] at h
  cases h

theorem orThrow_ok {found : Option α} {e : ε} {a : α} (h : orThrow found e = .ok a) :
    found = some a := by
  cases found with
  | none => cases h
  | some b => exact congrArg some (Except.ok.inj h)

theorem orThrow_error {found : Option α} {e e' : ε} (h : orThrow found e = .error e') :
    found = none := by
  cases found with
  | none => rfl
  | some a => cases h

theorem mapError_ok {ε' : Type} {x : Except ε α} {f : ε → ε'} {a : α}
    (h : x.mapError f = .ok a) : x = .ok a := by
  cases x with
  | error e => cases h
  | ok b => exact congrArg Except.ok (Except.ok.inj h)

end Finverse
