import Tale.Proofs.TellingTwins

/-!
# Stories without chance

The seed of a story matters only to the functions that draw and to sections that have several
variants of their contents. Entering a section moves the generator on even if there is nothing to
draw from, so the generators of two tellings stay apart; but no value in either of them ever
depends on its generator. A function that draws can be reached through its name alone: values
that are made without naming one hold none, however they are nested, kept or passed on.
-/

namespace Tale

/-- Two tellings that draw differently. -/
def Kin.drawless : Kin :=
  { Kin.same with chance := False }

/-- A story that names no function that draws, and whose sections have one variant of their contents
at most, is told the same whatever its seed is. Contents may show any variable. -/
theorem seeds_indifferent (story : Story Unit)
    (drawless : ∀ f : Native, f.draws = true → f.name ∉ story.references)
    (single : ∀ s ∈ story.sections, s.contents.length ≤ 1) (seed seed' : String)
    (provider : Provider) (limit : Nat) (calls : List (Option Nat)) :
    let t := (Telling.ofStory story seed provider limit).run calls
    let t' := (Telling.ofStory story seed' provider limit).run calls
    t'.1.map (Except.mapError StepError.report) = t.1.map (Except.mapError StepError.report)
      ∧ t'.2.pinned = t.2.pinned ∧ t'.2.world.stateText = t.2.world.stateText
      ∧ t'.2.isFinished = t.2.isFinished := by
  intro t t'
  have ht := Telling.ofStory_twins (K := .drawless) story
    (fun x hx f hf hd => drawless f hd (hf ▸ hx)) (.inr single) seed seed' False.elim provider limit
  rw [show story.relocate Kin.drawless.place = story from story.relocate_id] at ht
  obtain ⟨ha, hs⟩ := Telling.run_twins calls ht
  have hr := answers_report ha
  rw [show Kin.drawless.place = id from rfl] at hr
  simp only [StepError.relocate_id] at hr
  exact ⟨hr, hs.pinned, hs.world.stateText, hs.isFinished⟩

/-- A story that goes round in one section. What it shows is a function that draws, but it names
none. -/
def circling : Story Unit :=
  let e (shape : Shape Unit) : Expr Unit := ⟨shape, none⟩
  let again := e (.choice (e (.string "again")) (e (.goto ["s"])))
  let shown : Content :=
    ⟨"<p><span class=\"p0\"></span></p>", [⟨"p0", "randomInt"⟩], {}⟩
  ⟨⟨1, 3⟩, [⟨.declare [⟨"say", none, some (e (.reference "print")), none⟩], none⟩],
    [⟨"s", none, e (.selection (e (.list [.item again]))), [shown], none⟩]⟩

theorem seeds_indifferent_circling :
    (∀ f : Native, f.draws = true → f.name ∉ circling.references)
      ∧ (∀ s ∈ circling.sections, s.contents.length ≤ 1)
      ∧ let t := (Telling.ofStory circling "one" {} 20).run [none, some 0, some 0]
        let t' := (Telling.ofStory circling "another" {} 20).run [none, some 0, some 0]
        t'.1.map (Except.mapError StepError.report) = t.1.map (Except.mapError StepError.report)
          ∧ t'.2.pinned = t.2.pinned ∧ t'.2.world.stateText = t.2.world.stateText
          ∧ t'.2.isFinished = t.2.isFinished := by
  have drawless : ∀ f : Native, f.draws = true → f.name ∉ circling.references := by
    intro f
    cases f <;> decide
  have single : ∀ s ∈ circling.sections, s.contents.length ≤ 1 := by decide
  exact ⟨drawless, single, seeds_indifferent circling drawless single "one" "another" {} 20 _⟩

end Tale
