import VpnStack.Provision.Commands

/-!
# Which values a program takes as they are

`_fill` replaces its markers one after another, in a text that has the values of the earlier ones in it by then. That is the
same as replacing them at once where no value has the text of a later marker in it. Where one has, the later value goes into
the middle of the earlier one, and nothing is said unless something like a marker is left in the end.
-/

namespace VpnStack

namespace Provision

open Template

/-- The program is refused, or it is the template with every marker replaced by its value, all at once. -/
def Filling.AtOnce (f : Filling) : Prop :=
  (∃ message, f.fill = .error message) ∨ f.fill = .ok ⟨substitute f.pairs f.template⟩

/-- No value has a later marker in it, or some value still has something like a marker in it when the later markers in it are
replaced in turn. -/
def Filling.Unmixed (f : Filling) : Prop :=
  Clean f.pairs ∨ ∃ k ∈ f.pairs.map (·.1), (marking.firstMark (expanded k f.pairs)).isSome

/-- A template whose markers stand alone, and a value for each of them. -/
structure Filling.Complete (f : Filling) : Prop where
  separated : Separated marking f.program
  holes : holes f.program = f.values.map (·.1)
  nodup : (f.values.map (·.1)).Nodup

namespace Filling

variable {f : Filling}

/-- `_fill` refuses where a marker is left. -/
theorem fill_refuses_iff : (∃ message, f.fill = .error message) ↔ (marking.firstMark (substituteEach f.pairs f.template)).isSome := by
  rw [fill]
  cases marking.firstMark (substituteEach f.pairs f.template) with
  | none => simp
  | some unfilled => simp

/-- Where no mark is left the filling is what is written. -/
theorem fill_of_none (h : marking.firstMark (substituteEach f.pairs f.template) = none) :
    f.fill = .ok ⟨substituteEach f.pairs f.template⟩ := by
  rw [fill, h]

/-- What `_fill` does right is said by the two texts. -/
theorem atOnce_iff : f.AtOnce ↔ (marking.firstMark (substituteEach f.pairs f.template)).isSome ∨
    substituteEach f.pairs f.template = substitute f.pairs f.template := by
  rw [AtOnce, fill_refuses_iff]
  cases h : marking.firstMark (substituteEach f.pairs f.template) with
  | none => simp [fill_of_none h]
  | some unfilled => simp

/-- The marks are those of the values. -/
theorem pairs_fst (f : Filling) : f.pairs.map (·.1) = f.values.map (·.1) := by
  rw [pairs, List.map_map]
  rfl

/-- A complete template is filled right exactly where its values are not mixed. -/
theorem Complete.atOnce_iff (h : f.Complete) : f.AtOnce ↔ f.Unmixed := by
  have hmarks : ∀ p ∈ f.pairs, marking.IsMark p.1 := by
    intro p hp
    refine h.separated.isMark p.1 ?_
    rw [h.holes, ← pairs_fst]
    exact List.mem_map_of_mem hp
  have hnodup : (f.pairs.map (·.1)).Nodup := by
    rw [pairs_fst]
    exact h.nodup
  have hholes : ∀ k, k ∈ Template.holes f.program ↔ k ∈ f.pairs.map (·.1) := by
    intro k
    rw [h.holes, pairs_fst]
  rw [Filling.atOnce_iff, Unmixed]
  exact substituteEach_eq_or_firstMark_iff hmarks hnodup h.separated hholes

end Filling

/-! ## The templates -/

set_option maxRecDepth 8000 in
/-- In every template the markers are where its pieces say, and what follows one is part of no marker. -/
theorem fillings_separated (config : ProvisionConfig) (specs : List Text) :
    ∀ f ∈ fillings config specs, Separated marking f.program := by
  simp only [fillings, List.forall_mem_cons]
  refine ⟨?_, ?_, ?_, ?_, ?_, ?_, ?_, ?_, ?_, ?_, ?_, fun f hf => nomatch hf⟩
  all_goals
    repeat first
      | exact .nil
      | exact .last (by decide +kernel)
      | refine .lit (by decide +kernel) ?_
      | refine .hole (by decide +kernel) (by decide) ?_

/-- Every marker of a template has its value, and no value is without one. -/
theorem fillings_holes (config : ProvisionConfig) (specs : List Text) :
    ∀ f ∈ fillings config specs, holes f.program = f.values.map (·.1) ∧ (f.values.map (·.1)).Nodup := by
  simp only [fillings, List.forall_mem_cons]
  refine ⟨⟨rfl, ?_⟩, ⟨rfl, ?_⟩, ⟨rfl, ?_⟩, ⟨rfl, ?_⟩, ⟨rfl, ?_⟩, ⟨rfl, ?_⟩, ⟨rfl, ?_⟩, ⟨rfl, ?_⟩, ⟨rfl, ?_⟩, ⟨rfl, ?_⟩, ⟨rfl, ?_⟩,
    fun f hf => nomatch hf⟩
  all_goals
    simp [provisionedProbeCommand, cloneRepoCommand, hostBaseCommand, hostCodeCommand, vpnctlReadyCommand, applyCommand,
      smokeCommand, armDeadmanCommand, enableUfwCommand, disarmDeadmanCommand, portsBoundCommand]

/-- Every program of a provisioning is refused or filled in as if its markers were replaced at once, exactly where none of its
values has a later marker in it, or one keeps something like a marker in the end. -/
theorem fillings_atOnce_iff (config : ProvisionConfig) (specs : List Text) :
    ∀ f ∈ fillings config specs, f.AtOnce ↔ f.Unmixed := by
  intro f hf
  obtain ⟨hholes, hnodup⟩ := fillings_holes config specs f hf
  exact Filling.Complete.atOnce_iff ⟨fillings_separated config specs f hf, hholes, hnodup⟩

/-- The configuration of a server that is given only its address. -/
def plainConfig : ProvisionConfig := { host := "203.0.113.10" }

/-- No value of a plain configuration has a marker in it, and its clone is filled in as if at once. -/
theorem fillings_atOnce_iff_plain : cloneRepoCommand plainConfig ∈ fillings plainConfig [] ∧ (cloneRepoCommand plainConfig).AtOnce :=
  have hmem : cloneRepoCommand plainConfig ∈ fillings plainConfig [] := by simp [fillings]
  have hclean : Clean (cloneRepoCommand plainConfig).pairs := by
    unfold Clean
    decide
  ⟨hmem, (fillings_atOnce_iff plainConfig [] _ hmem).mpr (.inl hclean)⟩

/-- A path with the text of a later marker in it. -/
def mixedConfig : ProvisionConfig := { host := "203.0.113.10", repoPath := "/srv/@REF@" }

/-- The path has a later marker in it, and no value has anything like a marker left in the end. -/
theorem mixedConfig_mixed : ¬ (cloneRepoCommand mixedConfig).Unmixed := by
  rintro (hclean | ⟨k, hk, hmark⟩)
  · have hnot : ¬ Clean (cloneRepoCommand mixedConfig).pairs := by
      rw [Clean]
      decide +kernel
    exact hnot hclean
  · have hnone : ∀ k ∈ (cloneRepoCommand mixedConfig).pairs.map (·.1),
        (marking.firstMark (expanded k (cloneRepoCommand mixedConfig).pairs)).isSome = false := by decide +kernel
    rw [hnone k hk] at hmark
    nomatch hmark

/-- The path `/srv/@REF@` is checked out at `/srv/v0.2.0`, without a word. -/
theorem fillings_not_atOnce :
    ¬ ∀ (config : ProvisionConfig) (specs : List Text), ∀ f ∈ fillings config specs, f.AtOnce := by
  intro h
  have hmem : cloneRepoCommand mixedConfig ∈ fillings mixedConfig [] := by simp [fillings]
  obtain ⟨hholes, hnodup⟩ := fillings_holes mixedConfig [] _ hmem
  have hcomplete : (cloneRepoCommand mixedConfig).Complete := ⟨fillings_separated mixedConfig [] _ hmem, hholes, hnodup⟩
  exact mixedConfig_mixed (hcomplete.atOnce_iff.mp (h mixedConfig [] _ hmem))

end Provision

end VpnStack
