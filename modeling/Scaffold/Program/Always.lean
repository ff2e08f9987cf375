import Scaffold.Program

namespace Scaffold.Program

-- What holds of every run, by what has happened before it.

variable {Q : Type} {R : Q → Type} {L X : Type} {p : Program Q R L X}

-- Every run of the program continues the past to a run of which `φ` holds.
def Always (φ : List (Event Q R L X) → Outcome Q X → Prop) (past : List (Event Q R L X))
    (p : Program Q R L X) : Prop :=
  ∀ events outcome, p.Runs events outcome → φ (past ++ events) outcome

variable {φ ψ : List (Event Q R L X) → Outcome Q X → Prop} {past : List (Event Q R L X)}

theorem Always.mono (h : Always φ past p) (hφ : ∀ events outcome, φ events outcome → ψ events outcome) :
    Always ψ past p :=
  fun events outcome hrun => hφ _ _ (h events outcome hrun)

theorem always_done (h : φ past .returned) : Always φ past done := by
  intro events outcome hrun
  obtain ⟨rfl, rfl⟩ := runs_done.mp hrun
  rw [List.append_nil]
  exact h

theorem always_raise {error : X} (h : φ past (.raised error)) : Always φ past (raise error) := by
  intro events outcome hrun
  obtain ⟨rfl, rfl⟩ := runs_raise.mp hrun
  rw [List.append_nil]
  exact h

theorem always_ending {result : Option X} (h : φ past (ends result)) : Always φ past (ending result) := by
  intro events outcome hrun
  obtain ⟨rfl, rfl⟩ := runs_ending.mp hrun
  rw [List.append_nil]
  exact h

theorem always_log {record : L} (h : Always φ (past ++ [.logged record]) p) : Always φ past (log record p) := by
  intro events outcome hrun
  obtain ⟨rest, rfl, hrest⟩ := runs_log.mp hrun
  rw [List.append_cons]
  exact h rest outcome hrest

theorem always_await {request : Q} {next : Except X (R request) → Program Q R L X}
    (hwaiting : φ past (.waiting request))
    (hnext : ∀ answer, Always φ (past ++ [.asked request answer]) (next answer)) :
    Always φ past (await request next) := by
  intro events outcome hrun
  obtain ⟨rfl, rfl⟩ | ⟨answer, rest, rfl, hrest⟩ := runs_await.mp hrun
  · rw [List.append_nil]
    exact hwaiting
  · rw [List.append_cons]
    exact hnext answer rest outcome hrest

end Scaffold.Program
