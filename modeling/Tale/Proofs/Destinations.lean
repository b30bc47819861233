import Tale.Proofs.ParsedTargets

/-!
# Every goto arrives

An action that leads to sections is a value like any other: it can be kept in variables, lists and
choices, handed to functions and returned by them long before anyone acts on it. But only a goto
expression makes one, and what it leads to is written in the tree. So throughout a run, every action
there is leads to targets of the story, and in a story that was read from a document these are
sections (`targets_found`).
-/

namespace Tale

/-- The usual ways out. -/
def Exits.usual : Exits where
  leave _ := Run.leave
  set _ := Run.setRegister
  frame := Run.frame

theorem Exits.usual_respects {K : Scheme} (hl : ∀ r v w, K.left r v w ↔ v = w)
    (hr : ∀ r, K.causes (.unknownRegister r)) : usual.Respects K where
  leave _ r _ _ hv := leave_links (fun w => (hl r w w).mpr rfl) (.inr (hr r)) hv
  set _ r _ _ hv := setRegister_links (.inr (hr r)) hv
  frame _ _ _ _ _ _ _ hs hf h := frame_links hl hs hf h

namespace Destinations

/-- Code whose gotos lead to some names, whatever registers it uses. -/
def scheme (names : List String) : Scheme where
  rule :=
    { expr := fun _ e => e.targets ⊆ names
      register := fun _ _ => True
      targets := (· ⊆ names)
      part := fun h hm => List.Subset.trans (Expr.targets_part hm) h
      block := fun h s hs =>
        ⟨fun e he => List.Subset.trans (targets_of_statement hs he) h, fun _ _ => trivial⟩
      loop := fun h e he => List.Subset.trans (Shape.targets_loop he) h
      function := fun h e he => List.Subset.trans (FunctionExpr.targets_part he) h
      goto := fun h => h }
  causes cause := ∀ name, cause ≠ .unknownSection name
  ordinary h name hc := by
    rw [hc] at h
    exact h
  unknown _ _ := by rintro ⟨⟩
  left _ v w := v = w

theorem follows_rule {story : Story Nat} {names : List String} (h : story.targets ⊆ names) :
    (scheme names).rule.Story story := by
  rw [Story.targets, List.append_subset] at h
  refine ⟨fun s hs =>
      ⟨fun e he => List.Subset.trans (targets_of_statement hs he) h.1, fun _ _ => trivial⟩,
    fun x hx => ?_⟩
  have hx : x.targets ⊆ names := fun _ hn => h.2 (List.mem_flatMap.mpr ⟨x, hx, hn⟩)
  rw [Section.targets, List.append_subset, targetsInOption_eq] at hx
  exact ⟨fun e he _ hn => hx.1 (List.mem_flatMap.mpr ⟨e, he, hn⟩), hx.2⟩

theorem section?_ne_none {story : Story Nat} {name : String}
    (h : name ∈ story.sections.map (·.name)) : story.section? name ≠ none := by
  obtain ⟨x, hx, rfl⟩ := List.mem_map.mp h
  intro hn
  have := List.find?_eq_none.mp hn x hx
  simp at this

end Destinations

theorem targets_found {options : Document.Options} {source : String} {story : Story Unit}
    (h : Document.parse options source = .ok story) :
    (story.sections.map (·.name)).Nodup
      ∧ story.targets ⊆ story.sections.map (·.name)
      ∧ ∀ (seed : String) (provider : Provider) (limit : Nat) (calls : List (Option Nat))
          (f : Fault) (name : String),
        .error (.fault f) ∈ ((Telling.ofStory story seed provider limit).run calls).1 →
          f.cause ≠ .unknownSection name := by
  obtain ⟨hd, ht⟩ := Document.parse_targets h
  refine ⟨hd, ht, fun seed provider limit calls f name hf => ?_⟩
  have hl : story.labelled.targets ⊆ story.sections.map (·.name) := Story.labelled_targets ▸ ht
  have hX := Exits.usual_respects (K := Destinations.scheme (story.sections.map (·.name)))
    (fun _ _ _ => Iff.rfl) fun r name => by rintro ⟨⟩
  have hk := (Exits.run_alike hX (Destinations.follows_rule hl) (fun names hn name hm hs => ?_) seed
    provider limit calls).2 _ hf f rfl
  · rcases hk with hc | ⟨s, hs, -⟩
    · exact hc name
    · rw [hs]
      rintro ⟨⟩
  · rw [← Story.labelled_names] at hn
    exact absurd hs (Destinations.section?_ne_none (hn hm))

/-- A document whose only goto is the default of a parameter. -/
def wandering : String :=
  "WTCD 1.1 declare f=function[a=goto s]a section s f::[]then exit"

theorem targets_found_wandering : ∃ story, Document.parse {} wandering = .ok story
    ∧ story.targets = ["s"] ∧ story.targets ⊆ story.sections.map (·.name)
    ∧ ∀ calls f name, .error (.fault f) ∈ ((Telling.ofStory story "seed").run calls).1 →
        f.cause ≠ .unknownSection name := by
  have hp : (Document.parse {} wandering).toOption.map Story.targets = some ["s"] := by
    rw [Document.parse_eq_ofChars]
    decide +kernel
  rcases h : Document.parse {} wandering with e | story <;> rw [h] at hp
  · cases hp
  · have hf := targets_found h
    exact ⟨story, rfl, Option.some.inj hp, hf.2.1, hf.2.2 "seed" {} _⟩

end Tale
