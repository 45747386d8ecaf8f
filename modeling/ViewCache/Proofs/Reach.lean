import Mathlib.Logic.Relation

namespace ViewCache

variable {σ μ : Type} {next? : σ → μ → Option σ} {first last : σ}

def Leads (next? : σ → μ → Option σ) : σ → σ → Prop :=
  Relation.ReflTransGen fun state next => ∃ move, next? state move = some next

theorem Leads.induct {P : σ → Prop} (leads : Leads next? first last) (holds : P first)
    (kept : ∀ {state move next}, Leads next? first state → P state → next? state move = some next →
      P next) : P last := by
  induction leads with
  | refl => exact holds
  | tail earlier moved ih =>
      obtain ⟨move, moved⟩ := moved
      exact kept earlier ih moved

theorem leads_of_foldlM {moves : List μ} (followed : moves.foldlM next? first = some last) :
    Leads next? first last := by
  induction moves generalizing first with
  | nil =>
      cases followed
      exact .refl
  | cons move moves ih =>
      rw [List.foldlM_cons] at followed
      obtain ⟨next, moved, rest⟩ := Option.bind_eq_some_iff.mp followed
      exact .head ⟨move, moved⟩ (ih rest)

end ViewCache
