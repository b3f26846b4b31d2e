import MatchingDependencies.Proofs.Discovery.Outcome

/-!
# A search ends

The number of steps and rounds that a search may take is only there for the
sake of its definition. Inference and traversal always come to their end, and
so does the search.
-/

set_option autoImplicit false

namespace MatchingDependencies.Discovery

variable {d : Discovery} {data : Dataset} (loaded : d.tables.Loaded) (built : d.dataset = .ok data)

include loaded built

theorem ends {vs : List Scores} {s : Search}
    (history : Search.History (d.setting data) (Search.start data) vs s) :
    s.Ends (d.setting data) := by
  have hd := sound_dataset loaded built
  have begun := Search.start_workable (q := d.setting data) hd
  have known := history.known hd begun (Search.start_known (d.setting data))
  exact (history.workable hd data.natural_self begun).ends hd known

/-- A search ends: from every state that its operations lead to, inference and
traversal have an answer and are done in the same round after some rounds, and so a
discovery has an outcome. -/
theorem search_ends :
    (∀ vs s, Search.History (d.setting data) (Search.start data) vs s →
      s.Ends (d.setting data)) ∧ ∃ o, d.execute = .ok (some o) :=
  ⟨fun _ _ history => ends loaded built history, exists_outcome loaded built⟩

omit loaded built in
theorem search_ends_strangers :
    (∀ vs s, Search.History (amongStrangers.setting strangerData) (Search.start strangerData) vs s →
      s.Ends (amongStrangers.setting strangerData)) ∧ ∃ o, amongStrangers.execute = .ok (some o) :=
  search_ends strangers_loaded build_strangers

end MatchingDependencies.Discovery
