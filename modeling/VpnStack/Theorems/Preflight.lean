import VpnStack.Provision.Preflight

/-!
# What the preflight lets through

The step that mints the keyring begins only after the preflight returned, and that only after the probe's output showed no evidence of an
earlier install. No evidence is less than an answer that there is none.
-/

namespace VpnStack

namespace Preflight

open Firewall (CommandResult valueOf)

open Provision (ProvisionConfig)

section Run

variable {W α β : Type} {w w' : W}

/-- A step that returned went through each of its parts. -/
theorem bind_eq_ok {p : Body W α} {f : α → Body W β} {b : β} :
    (p >>= f) w = .ok b w' ↔ ∃ a w₁, p w = .ok a w₁ ∧ f a w₁ = .ok b w' := by
  show EStateM.bind p f w = .ok b w' ↔ _
  unfold EStateM.bind
  cases p w with
  | error e w₁ => simp
  | ok a w₁ => simp

/-- A check that was passed did not apply. -/
theorem refuseIf_eq_ok {c : Prop} [Decidable c] {failure : Failure} {u : Unit} (h : (refuseIf c failure : Body W Unit) w = .ok u w') :
    ¬ c := by
  intro hc
  rw [refuseIf, if_pos hc] at h
  cases h

variable {server : Server W} {step what : String} {program : Program} {result : CommandResult}

/-- A program that is checked has run, and ended with zero. -/
theorem runChecked_eq_ok (h : runChecked server step program what w = .ok result w') :
    server.run program w = (some result, w') ∧ result.exitCode = 0 := by
  obtain ⟨r, w₁, hrun, h⟩ := bind_eq_ok.mp h
  rw [run] at hrun
  rcases hanswer : server.run program w with ⟨answer, w₂⟩
  rw [hanswer] at hrun
  cases answer with
  | none => cases hrun
  | some r' =>
    cases hrun
    cases hok : r.ok with
    | false =>
      rw [hok] at h
      cases h
    | true =>
      rw [hok] at h
      cases h
      exact ⟨rfl, by simpa [CommandResult.ok] using hok⟩

/-- The preflight returns only if the probe ended with zero and its output showed no evidence. -/
theorem evidence_of_preflight {config : ProvisionConfig} {u : Unit} (h : preflight config server w = .ok u w') :
    ∃ w₁ w₂ result, server.run .provisionedProbe w₁ = (some result, w₂) ∧ result.exitCode = 0 ∧
      evidence config result.stdout = [] := by
  obtain ⟨-, w₁, -, h⟩ := bind_eq_ok.mp h
  obtain ⟨who, w₂, -, h⟩ := bind_eq_ok.mp h
  obtain ⟨-, w₃, -, h⟩ := bind_eq_ok.mp h
  obtain ⟨os, w₄, -, h⟩ := bind_eq_ok.mp h
  obtain ⟨-, w₅, -, h⟩ := bind_eq_ok.mp h
  obtain ⟨probe, w₆, hprobe, h⟩ := bind_eq_ok.mp h
  obtain ⟨hrun, hexit⟩ := runChecked_eq_ok hprobe
  exact ⟨w₅, w₆, probe, hrun, hexit, not_not.mp (refuseIf_eq_ok h)⟩

/-- The steps begin one after the other as long as they succeed. -/
theorem begun_of_ok {s : Step W} {steps : List (Step W)} {u : Unit} (h : s.run w = .ok u w') :
    (runSteps (s :: steps) w).begun = s.name :: (runSteps steps w').begun := by
  rw [runSteps, h]

/-- The first step begins in any case. -/
theorem begun_first {s : Step W} {steps : List (Step W)} : s.name ∈ (runSteps (s :: steps) w).begun := by
  rw [runSteps]
  split
  · exact List.mem_singleton_self _
  · exact List.mem_cons_self ..

/-- The keyring's step begins only behind a preflight that returned. -/
theorem preflight_of_begun {config : ProvisionConfig} {rest : String → Body W Unit}
    (h : "bootstrap" ∈ (runSteps (provisionSteps config server rest) w).begun) :
    ∃ w', preflight config server w = .ok () w' := by
  rw [provisionSteps, runSteps] at h
  cases hpreflight : preflight config server w with
  | error failure w' =>
    simp only [hpreflight, List.mem_singleton] at h
    exact absurd h (by decide)
  | ok u w' => exact ⟨w', rfl⟩

end Run

/-! ## The probe's answer -/

/-- The probe says that there is no users file and no secret: each answer to either question, of which there is one, says so. -/
structure Bare (stdout : Text) : Prop where
  usersAnswered : valuesOf stdout "users_file" ≠ []
  noUsers : ∀ value ∈ valuesOf stdout "users_file", value = "no"
  secretsAnswered : valuesOf stdout "secrets" ≠ []
  noSecrets : ∀ value ∈ valuesOf stdout "secrets", Dart.intTryParse value = some 0

/-- The first answer to one of the questions says that there is something. -/
def Evident (stdout : Text) : Prop :=
  valueOf stdout "users_file" = some "yes".toList ∨
    ∃ value n, valueOf stdout "secrets" = some value ∧ Dart.intTryParse value = some n ∧ 0 < n

theorem ite_singleton_eq_nil {α : Type} {c : Prop} [Decidable c] {a : α} : (if c then [a] else []) = [] ↔ ¬ c := by
  by_cases hc : c <;> simp [hc]

/-- Nothing is found exactly where the output is not evidence. -/
theorem evidence_eq_nil_iff {config : ProvisionConfig} {stdout : Text} : evidence config stdout = [] ↔ ¬ Evident stdout := by
  have hsecrets : 0 < secrets stdout ↔ ∃ value n, valueOf stdout "secrets" = some value ∧ Dart.intTryParse value = some n ∧ 0 < n := by
    rw [secrets]
    cases hvalue : valueOf stdout "secrets" with
    | none =>
      have hempty : Dart.intTryParse [] = none := by decide
      simp [hempty]
    | some value =>
      cases hn : Dart.intTryParse value with
      | none => simp [hn]
      | some n => simp [hn]
  rw [evidence, List.append_eq_nil_iff, Evident, not_or, ← hsecrets, ite_singleton_eq_nil, ite_singleton_eq_nil]

/-- A server that answers the probe so, and is a Debian with root. -/
def answering (stdout : Text) : Server Unit where
  openPrimary w := (.ok (), w)
  run
    | .whoami, w => (some ⟨0, "0\n", []⟩, w)
    | .osRelease, w => (some ⟨0, "ID=debian\n", []⟩, w)
    | .provisionedProbe, w => (some ⟨0, stdout, []⟩, w)
    | .hostCode, w => (some ⟨0, [], []⟩, w)
    | .vpnctlReady, w => (some ⟨0, [], []⟩, w)

/-- Nothing else keeps the run from the keyring on that server. -/
theorem begun_answering {config : ProvisionConfig} {stdout : Text} (h : evidence config stdout = []) :
    "bootstrap" ∈ (runSteps (provisionSteps config (answering stdout) fun _ => pure ()) ()).begun := by
  have hpreflight : preflight config (answering stdout) () = .ok () () := by
    have hlast : (refuseIf (evidence config stdout ≠ []) (.alreadyProvisioned "preflight" (evidence config stdout)) : Body Unit Unit) () =
        .ok () () := by
      rw [refuseIf, if_neg (not_not.mpr h)]
      rfl
    exact hlast
  rw [provisionSteps, begun_of_ok hpreflight, begun_of_ok rfl, begun_of_ok rfl, begun_of_ok rfl, begun_of_ok rfl]
  simp only [List.mem_cons]
  exact .inr (.inr (.inr (.inr (.inr begun_first))))

/-- The outputs of the probe behind which a keyring is minted only on a bare server: those whose first answer to a question says that
there is something, and those that say in full that there is nothing. -/
theorem preflight_guards_iff (config : ProvisionConfig) (stdout : Text) :
    (∀ (W : Type) (server : Server W) (rest : String → Body W Unit) (w : W),
      (∀ w₁ w₂ result, server.run .provisionedProbe w₁ = (some result, w₂) → result.exitCode = 0 → result.stdout = stdout) →
      "bootstrap" ∈ (runSteps (provisionSteps config server rest) w).begun → Bare stdout) ↔
      Evident stdout ∨ Bare stdout := by
  constructor
  · intro h
    by_cases hevident : Evident stdout
    · exact .inl hevident
    · refine .inr (h Unit (answering stdout) (fun _ => pure ()) () ?_ (begun_answering (evidence_eq_nil_iff.mpr hevident)))
      intro w₁ w₂ result hrun _
      cases hrun
      rfl
  · rintro h W server rest w hprobe hbegun
    refine h.resolve_left fun hevident => ?_
    obtain ⟨w', hpreflight⟩ := preflight_of_begun hbegun
    obtain ⟨w₁, w₂, result, hrun, hexit, hnone⟩ := evidence_of_preflight hpreflight
    rw [hprobe w₁ w₂ result hrun hexit] at hnone
    exact evidence_eq_nil_iff.mp hnone hevident

/-- An output that was cut off before the two answers counts as one of a bare server. -/
theorem preflight_truncated :
    ¬ ∀ (config : ProvisionConfig) (stdout : Text) (W : Type) (server : Server W) (rest : String → Body W Unit) (w : W),
      (∀ w₁ w₂ result, server.run .provisionedProbe w₁ = (some result, w₂) → result.exitCode = 0 → result.stdout = stdout) →
      "bootstrap" ∈ (runSteps (provisionSteps config server rest) w).begun → Bare stdout := by
  intro h
  have hbare := h { host := "203.0.113.7" } "vpnctl=yes\nstate_dir=yes\n" Unit (answering "vpnctl=yes\nstate_dir=yes\n")
    (fun _ => pure ()) () (fun w₁ w₂ result hrun _ => by cases hrun; rfl) (begun_answering (by decide))
  exact hbare.usersAnswered (by decide)

end Preflight

end VpnStack
