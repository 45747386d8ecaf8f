import ViewCache.Command.Locate
import ViewCache.Proofs.Config.Variables

/-!
The settings of a search: what the flags say goes over the environment, what the environment says over the file,
and what the file says over the defaults. A file or variable that says nothing sensible is reported even where
something goes over it.
-/
namespace ViewCache.Command

open LocatorConfig

section

variable {α : Type} (around : Surroundings) (name : String) (means : String → α → Prop)

/-- What a variable says, if anything. -/
inductive Tells : Option α → Prop
  | nothing (unset : ∀ raw : String, around.environment name ≠ some raw.toUTF8) : Tells none
  | value {raw : String} {value : α} (set : around.environment name = some raw.toUTF8) (valid : means raw value) :
      Tells (some value)

end

section

variable {α : Type} {around : Surroundings} {name : String} {means : String → α → Prop} {parse? : String → Option α}

theorem envText?_eq_some {raw : String} :
    around.envText? name = some raw ↔ around.environment name = some raw.toUTF8 := by
  have decoded (bytes : ByteArray) : String.fromUTF8? bytes = some raw ↔ bytes = raw.toUTF8 := by
    constructor
    · intro text
      simp only [String.fromUTF8?, Option.dite_none_right_eq_some, Option.some.injEq] at text
      obtain ⟨valid, rfl⟩ := text
      rfl
    · rintro rfl
      exact dif_pos raw.isValidUTF8
  simp only [Surroundings.envText?, Option.bind_eq_some_iff, decoded]
  constructor
  · rintro ⟨bytes, set, rfl⟩
    exact set
  · exact fun set => ⟨_, set, rfl⟩

theorem tells_iff (reads : ∀ {raw value}, parse? raw = some value ↔ means raw value) {value? : Option α} :
    Tells around name means value? ↔ (around.envText? name).map parse? = value?.map some := by
  cases text : around.envText? name with
  | none =>
      have unset : ∀ raw : String, around.environment name ≠ some raw.toUTF8 := by
        intro raw set
        rw [envText?_eq_some.mpr set] at text
        cases text
      constructor
      · intro tells
        cases tells with
        | nothing => rfl
        | value set => exact absurd set (unset _)
      · intro same
        cases value? with
        | none => exact .nothing unset
        | some => cases same
  | some raw =>
      have set := envText?_eq_some.mp text
      constructor
      · intro tells
        cases tells with
        | nothing unset => exact absurd set (unset raw)
        | value setToo valid =>
            have same := text.symm.trans (envText?_eq_some.mpr setToo)
            cases same
            exact congrArg some (reads.mpr valid)
      · intro same
        cases value? with
        | none => cases same
        | some value => exact .value set (reads.mp (Option.some.inj same))

theorem Tells.read (reads : ∀ {raw value}, parse? raw = some value ↔ means raw value) {value? : Option α}
    (tells : Tells around name means value?) :
    (around.envText? name = none ∧ value? = none) ∨
      ∃ raw value, around.envText? name = some raw ∧ parse? raw = some value ∧ value? = some value := by
  have same := (tells_iff reads).mp tells
  cases text : around.envText? name with
  | none =>
      rw [text] at same
      exact .inl ⟨rfl, Option.map_eq_none_iff.mp same.symm⟩
  | some raw =>
      rw [text] at same
      obtain ⟨value, rfl, parsed⟩ := Option.map_eq_some_iff.mp same.symm
      exact .inr ⟨raw, value, rfl, parsed.symm, rfl⟩

end

section

variable {around : Surroundings} {options : LocateOptions} {config : LocatorConfig}

end

end ViewCache.Command
