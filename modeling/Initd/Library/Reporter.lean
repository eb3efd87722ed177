import Initd.Library.StepSystem

namespace Initd.Library

universe u

/-! Reports at places that are walked past in their order, by a reporter that
remembers only the place of its last report. -/

/-- The first of the places ahead is the one that the reporter is at. -/
structure Reporter (Place : Type u) where
  ahead : List Place
  last : Option Place
  reports : List Place

namespace Reporter

variable {Place : Type u} {places : List Place}

inductive Step : Reporter Place → Reporter Place → Prop
  | walk (place : Place) (ahead : List Place) (last : Option Place)
      (reports : List Place) :
      Step ⟨place :: ahead, last, reports⟩ ⟨ahead, last, reports⟩
  | report {place : Place} {last : Option Place} (ahead reports : List Place)
      (other : last ≠ some place) :
      Step ⟨place :: ahead, last, reports⟩
        ⟨place :: ahead, some place, reports ++ [place]⟩

def system (places : List Place) : StepSystem (Reporter Place) where
  init reporter := reporter = ⟨places, none, []⟩
  step := Step

/-- The reports so far are at places walked past, or the last of them is at the
place here. -/
inductive InOrder (places : List Place) : Reporter Place → Prop
  | past {passed ahead reports : List Place} (last : Option Place)
      (split : places = passed ++ ahead) (sublist : reports.Sublist passed) :
      InOrder places ⟨ahead, last, reports⟩
  | here {passed ahead reports : List Place} {place : Place}
      (split : places = passed ++ place :: ahead)
      (sublist : reports.Sublist (passed ++ [place])) :
      InOrder places ⟨place :: ahead, some place, reports⟩

theorem InOrder.sublist {reporter : Reporter Place}
    (inOrder : InOrder places reporter) : reporter.reports.Sublist places := by
  cases inOrder with
  | @past passed ahead _ _ split sublist =>
      rw [split]
      exact sublist.trans (List.sublist_append_left passed ahead)
  | @here passed ahead _ place split sublist =>
      rw [split, List.append_cons]
      exact sublist.trans (List.sublist_append_left _ ahead)

theorem Step.inOrder {before after : Reporter Place}
    (step : Step before after) (inOrder : InOrder places before) :
    InOrder places after := by
  cases step with
  | walk place ahead last reports =>
      cases inOrder with
      | @past passed _ _ _ split sublist =>
          exact .past last (by rw [split, List.append_cons])
            (sublist.trans (List.sublist_append_left passed [place]))
      | here split sublist =>
          exact .past _ (by rw [split, List.append_cons]) sublist
  | @report place _ ahead reports other =>
      cases inOrder with
      | past _ split sublist =>
          exact .here split (sublist.append (List.Sublist.refl [place]))
      | here _ _ => exact absurd rfl other

/-- The reports stand in the order of the places, and no place is reported more
often than it is there. -/
theorem reports_sublist {reporter : Reporter Place}
    (reached : (system places).Reachable reporter) :
    reporter.reports.Sublist places := by
  have inOrder : InOrder places reporter := by
    refine reached.invariant (InOrder places) ?_ ?_
    · rintro _ rfl
      exact .past none (List.nil_append places).symm (List.nil_sublist [])
    · exact fun _ _ _ kept step => Step.inOrder step kept
  exact inOrder.sublist

end Reporter

end Initd.Library
