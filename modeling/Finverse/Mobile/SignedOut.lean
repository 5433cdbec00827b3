import Finverse.Mobile.SessionStore

/-! What the session store keeps of a sign-out, whichever platform calls fail and wherever the process
stops. -/

namespace Finverse.Mobile

open Interleave

/-! ### Sequences of calls -/

inductive StoreCall
  | read
  | write (tokens : SessionTokens)
  | clear
  deriving DecidableEq, Repr

/-- A call of the store, and how its platform calls go. The process stops where no outcome is left,
and the next call is made after a restart. -/
structure Made where
  call : StoreCall
  outcomes : List Outcome
  deriving DecidableEq, Repr

section Runs

variable (isDate : String → Bool)

def Made.leaves (m : Made) (d : Device) : Device :=
  match m.call with
  | .read => (Task.play perform (read isDate) m.outcomes d).2
  | .write tokens => (Task.play perform (write tokens) m.outcomes d).2
  | .clear => (Task.play perform clear m.outcomes d).2

def left (calls : List Made) (d : Device) : Device := calls.foldl (fun d m => m.leaves isDate d) d

end Runs

/-! ### What each call keeps -/

/-- The marker is up, or the token is one of these. -/
def Hidden (written : List SessionTokens) (d : Device) : Prop :=
  d.signedOut = true ∨ ∀ raw, d.token = some raw → ∃ tokens ∈ written, raw = toJson tokens

section Hidden

variable {written more : List SessionTokens} {d : Device} {α : Type} {ok : α → Device → Prop}
  {err : StoreFailure → Device → Prop} {J : Device → Prop} {isDate : String → Bool}

theorem Hidden.mono (h : Hidden written d) (sub : written ⊆ more) : Hidden more d := by
  rcases h with up | known
  · exact .inl up
  · right
    intro raw stored
    obtain ⟨tokens, there, same⟩ := known raw stored
    exact ⟨tokens, sub there, same⟩

theorem Hidden.of_no_token (h : d.token = none) : Hidden written d := by
  right
  intro raw stored
  rw [h] at stored
  cases stored

/-- The rule for a platform call: it succeeds, or it fails with or without effect. -/
theorem call_survives {c : PlatformCall} {ok : c.Value → Device → Prop} (stops : J d)
    (succeeds : ok (c.value d) (c.effect d)) (fails : err .platform d)
    (fails_after : err .platform (c.effect d)) :
    Task.Survives perform J ok err d (call c) := by
  refine Task.survives_bind.mpr (Task.survives_call.mpr ⟨stops, fun outcome => ?_⟩)
  cases outcome with
  | succeeds => exact succeeds
  | fails effect =>
    cases effect with
    | true => exact fails_after
    | false => exact fails

/-- The rule for a platform call and what follows it. -/
theorem call_bind_survives {c : PlatformCall} {f : c.Value → Store α} (stops : J d)
    (succeeds : Task.Survives perform J ok err (c.effect d) (f (c.value d)))
    (fails : err .platform d) (fails_after : err .platform (c.effect d)) :
    Task.Survives perform J ok err d (call c >>= f) :=
  Task.survives_bind.mpr (call_survives stops succeeds fails fails_after)

theorem orUnavailable_survives {m : Store α}
    (h : Task.Survives perform J ok (fun _ => err .unavailable) d m) :
    Task.Survives perform J ok err d (orUnavailable m) :=
  Task.survives_tryCatch.mpr h

theorem write_survives {tokens : SessionTokens} (hidden : Hidden written d) :
    Task.Survives perform (Hidden (tokens :: written)) (fun _ => Hidden (tokens :: written))
      (fun _ => Hidden (tokens :: written)) d (write tokens) := by
  have before : Hidden (tokens :: written) d := hidden.mono (List.subset_cons_self _ _)
  have stored : ∀ signedOut, Hidden (tokens :: written) ⟨some (toJson tokens), signedOut⟩ := by
    intro signedOut
    right
    rintro raw same
    exact ⟨tokens, List.mem_cons_self, (Option.some.inj same).symm⟩
  refine orUnavailable_survives (call_bind_survives before ?_ before (stored d.signedOut))
  exact call_survives (c := .markerClear) (stored d.signedOut) (stored false) (stored d.signedOut)
    (stored false)

theorem clear_survives (hidden : Hidden written d) :
    Task.Survives perform (Hidden written) (fun _ => Hidden written) (fun _ => Hidden written) d
      clear := by
  have up : ∀ token, Hidden written ⟨token, true⟩ := fun _ => .inl rfl
  have gone : ∀ signedOut, Hidden written ⟨none, signedOut⟩ := fun _ => .of_no_token rfl
  refine orUnavailable_survives (call_bind_survives hidden ?_ hidden (up d.token))
  refine call_bind_survives (up d.token) ?_ (up d.token) (gone true)
  -- The token is gone, so the marker may come down or stay.
  refine Task.survives_tryCatch.mpr ?_
  exact call_survives (c := .markerClear) (gone true) (gone false) (gone true) (gone false)

theorem read_survives (hidden : Hidden written d) :
    Task.Survives perform (Hidden written)
      (fun answer t => Hidden written t ∧ ∀ tokens, answer = some tokens → tokens ∈ written)
      (fun _ => Hidden written) d (read isDate) := by
  have nothing : ∀ tokens : SessionTokens, none = some tokens → tokens ∈ written := by
    intro tokens h
    cases h
  refine Task.survives_bind.mpr (orUnavailable_survives (call_survives hidden ?_ hidden hidden))
  have marker_eq : PlatformCall.markerRead.value d = d.signedOut := rfl
  rw [marker_eq]
  cases up : d.signedOut with
  | true => exact ⟨hidden, nothing⟩
  | false =>
    refine Task.survives_bind.mpr (orUnavailable_survives (call_survives hidden ?_ hidden hidden))
    have value_eq : PlatformCall.storageRead.value (PlatformCall.markerRead.effect d) = d.token := rfl
    rw [value_eq]
    cases stored : d.token with
    | none =>
      exact ⟨hidden, nothing⟩
    | some raw =>
      have known : ∃ tokens ∈ written, raw = toJson tokens := by
        rcases hidden with marked | known
        · rw [up] at marked
          cases marked
        · exact known raw stored
      obtain ⟨tokens, there, rfl⟩ := known
      dsimp only
      cases decoded : fromJson isDate (toJson tokens) with
      | some answer =>
        refine ⟨hidden, fun read same => ?_⟩
        obtain rfl := Option.some.inj same
        rwa [fromJson_toJson decoded]
      | none =>
        refine Task.survives_bind.mpr (Task.survives_tryCatch.mpr ?_)
        exact (clear_survives hidden).weaken (fun _ _ kept => ⟨kept, nothing⟩)
          fun _ _ kept => ⟨kept, nothing⟩

/-- A task that keeps something leaves it, whether it ends or is stopped. -/
theorem left_of_survives {m : Store α} (h : Task.Survives perform J (fun _ => J) (fun _ => J) d m)
    (outcomes : List Outcome) : J (Task.play perform m outcomes d).2 := by
  have played := Prog.Survives.play h outcomes
  change J (m.run.play perform outcomes d).2
  split at played
  · rename_i answer t left
    rw [left]
    cases answer <;> exact played
  · rename_i t left
    rw [left]
    exact played

/-! ### Runs -/

def StoreCall.tokens : StoreCall → List SessionTokens
  | .write tokens => [tokens]
  | _ => []

/-- The tokens that the calls write. -/
def writes (calls : List Made) : List SessionTokens := calls.flatMap fun m => m.call.tokens

theorem leaves_hidden (hidden : Hidden written d) (m : Made) :
    Hidden (m.call.tokens ++ written) (m.leaves isDate d) := by
  obtain ⟨c, outcomes⟩ := m
  cases c with
  | read =>
    refine left_of_survives ?_ outcomes
    exact (read_survives hidden).weaken (fun _ _ kept => kept.1) fun _ _ => id
  | write tokens => exact left_of_survives (write_survives hidden) outcomes
  | clear => exact left_of_survives (clear_survives hidden) outcomes

theorem left_hidden (hidden : Hidden written d) (calls : List Made) :
    Hidden (writes calls ++ written) (left isDate calls d) := by
  induction calls generalizing d written with
  | nil => exact hidden
  | cons m calls ih =>
    refine (ih (leaves_hidden hidden m)).mono fun tokens there => ?_
    simp only [writes, List.flatMap_cons, List.mem_append] at there ⊢
    tauto

/-- A clear that writes its marker hides whatever is stored. -/
theorem clear_hides (rest : List Outcome) :
    Hidden [] (Task.play perform clear (.succeeds :: rest) d).2 := by
  have same : Task.play perform clear (.succeeds :: rest) d =
      Task.play perform clear (.succeeds :: rest) { d with signedOut := true } := rfl
  rw [same]
  exact left_of_survives (clear_survives (.inl rfl)) _

/-- After a clear that wrote its marker, a read returns only what was written since. -/
theorem cleared_stays_cleared (before later : List Made) (rest outcomes : List Outcome) (d₀ : Device)
    {tokens : SessionTokens}
    (returned : (Task.play perform (read isDate) outcomes
      (left isDate (before ++ ⟨.clear, .succeeds :: rest⟩ :: later) d₀)).1 =
        some (.ok (some tokens))) :
    ∃ m ∈ later, m.call = .write tokens := by
  have hidden : Hidden (writes later ++ [])
      (left isDate (before ++ ⟨.clear, .succeeds :: rest⟩ :: later) d₀) := by
    rw [left, List.foldl_append, List.foldl_cons]
    exact left_hidden (clear_hides rest) later
  have survives : Task.Survives perform (Hidden (writes later ++ [])) _ _ _ (read isDate) :=
    read_survives hidden
  have played := Prog.Survives.play survives outcomes
  change (Prog.play perform (read isDate).run outcomes _).1 = _ at returned
  split at played
  · rename_i answer t ends
    rw [ends] at returned
    obtain rfl := Option.some.inj returned
    have written := played.2 tokens rfl
    rw [List.append_nil, writes, List.mem_flatMap] at written
    obtain ⟨m, there, mine⟩ := written
    refine ⟨m, there, ?_⟩
    revert mine
    cases m.call with
    | write other =>
      intro mine
      rw [List.mem_singleton.mp mine]
    | read | clear =>
      intro mine
      cases mine
  · rename_i t stopped
    rw [stopped] at returned
    cases returned

end Hidden

/-! ### A token that could not be deleted -/

def signedInAs (token : String) : SessionTokens := ⟨token, token, "", none⟩

/-- The old token stays in the locked keystore. Signing in again stores a new one. -/
def signedInAgain : List Made :=
  [⟨.write (signedInAs "old"), [.succeeds, .succeeds]⟩,
    ⟨.clear, [.succeeds, .fails false]⟩,
    ⟨.read, [.succeeds]⟩,
    ⟨.write (signedInAs "new"), [.succeeds, .succeeds]⟩]

theorem cleared_stays_cleared_again :
    let device := left (fun _ => true) signedInAgain ⟨none, false⟩
    (Task.play perform (read fun _ => true) [.succeeds, .succeeds] device).1 =
        some (.ok (some (signedInAs "new"))) ∧
      ∃ m ∈ signedInAgain.drop 2, m.call = .write (signedInAs "new") := by
  have returned : (Task.play perform (read fun _ => true) [.succeeds, .succeeds]
      (left (fun _ => true) signedInAgain ⟨none, false⟩)).1 =
        some (.ok (some (signedInAs "new"))) := by decide
  exact ⟨returned, cleared_stays_cleared (signedInAgain.take 1) (signedInAgain.drop 2)
    [.fails false] [.succeeds, .succeeds] ⟨none, false⟩ returned⟩

end Finverse.Mobile
