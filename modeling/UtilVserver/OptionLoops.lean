import UtilVserver.Lib.CString
import UtilVserver.Lib.Loops

/-!
# The option loops of `vserver ... stop` and `vprocunhide`

Both scripts look at their first argument until there is none that they know.

* `stopOptions` — the loop of `scripts/vserver.stop`.
* `vprocunhideOptions` — the loop of `scripts/vprocunhide`.

Principal result: `optionLoops_end`.
-/

set_option autoImplicit false

namespace OptionLoops

open CString Loops

/-- How the stop script leaves the loop. -/
inductive StopResult where
  /-- The main part, with the remaining arguments and whether `_IS_FAKEINIT` is set. -/
  | main (args : List Text) (fakeInit : Bool)
  /-- `panic "vserver ... stop: unknown option '$1'"`. -/
  | unknown (arg : Text)

def stopOptions : List Text × Bool → Pass (List Text × Bool) StopResult
  | ([], fakeInit) => .leave (.main [] fakeInit)
  | (arg :: args, fakeInit) =>
    if arg = "--rescue-init".toList then .again (args, true)
    else if arg = "--".toList then .leave (.main args fakeInit)
    else if arg.head? = some '-' then .leave (.unknown arg)
    -- no branch of the `case` matches
    else .again (arg :: args, fakeInit)

/-- How `vprocunhide` leaves the loop. -/
inductive VprocunhideResult where
  | main
  | help
  | version

def vprocunhideOptions : List Text → Pass (List Text) VprocunhideResult
  | [] => .leave .main
  | arg :: args =>
    if arg = [] then .leave .main
    else if arg = "--help".toList then .leave .help
    else if arg = "--version".toList then .leave .version
    else .again (arg :: args)

/-- The words that the stop script does not pass over begin with a dash, as far as it gets. -/
def StopKnows (args : List Text) : Prop :=
  ∀ arg ∈ (args.dropWhile (· = "--rescue-init".toList)).head?, arg.head? = some '-'

/-- The first word of `vprocunhide` is an option or empty. -/
def VprocunhideKnows (args : List Text) : Prop :=
  ∀ arg ∈ args.head?, arg = [] ∨ arg = "--help".toList ∨ arg = "--version".toList

theorem stopOptions_ends_iff : ∀ (args : List Text) (fakeInit : Bool),
    Ends stopOptions (args, fakeInit) ↔ StopKnows args
  | [], fakeInit => by
    refine iff_of_true (ends_of_leave rfl) ?_
    intro arg harg
    cases harg
  | arg :: args, fakeInit => by
    unfold StopKnows
    by_cases hrescue : arg = "--rescue-init".toList
    · have hpass : stopOptions (arg :: args, fakeInit) = .again (args, true) := by
        rw [stopOptions, if_pos hrescue]
      have hdrop : (arg :: args).dropWhile (· = "--rescue-init".toList) =
          args.dropWhile (· = "--rescue-init".toList) :=
        List.dropWhile_cons_of_pos (by rwa [decide_eq_true_eq])
      rw [ends_again_iff hpass, stopOptions_ends_iff args true, hdrop]
      rfl
    · have hdrop : (arg :: args).dropWhile (· = "--rescue-init".toList) = arg :: args :=
        List.dropWhile_cons_of_neg (by rwa [decide_eq_true_eq])
      rw [hdrop, List.head?_cons]
      by_cases hdash : arg.head? = some '-'
      · refine iff_of_true ?_ ?_
        · by_cases hend : arg = "--".toList
          · apply ends_of_leave
            rw [stopOptions, if_neg hrescue, if_pos hend]
          · apply ends_of_leave
            rw [stopOptions, if_neg hrescue, if_neg hend, if_pos hdash]
        · intro a ha
          rwa [← Option.some.inj ha]
      · refine iff_of_false ?_ ?_
        · have hend : arg ≠ "--".toList := by
            rintro rfl
            exact hdash rfl
          apply not_ends_of_fixed
          rw [stopOptions, if_neg hrescue, if_neg hend, if_neg hdash]
        · intro h
          exact hdash (h arg rfl)

theorem vprocunhideOptions_ends_iff (args : List Text) :
    Ends vprocunhideOptions args ↔ VprocunhideKnows args := by
  cases args with
  | nil =>
    refine iff_of_true (ends_of_leave rfl) ?_
    intro arg harg
    cases harg
  | cons arg args =>
    unfold VprocunhideKnows
    rw [List.head?_cons]
    by_cases hnil : arg = []
    · refine iff_of_true (ends_of_leave (by rw [vprocunhideOptions, if_pos hnil])) ?_
      intro a ha
      exact Or.inl (Option.some.inj ha ▸ hnil)
    by_cases hhelp : arg = "--help".toList
    · refine iff_of_true (ends_of_leave
        (by rw [vprocunhideOptions, if_neg hnil, if_pos hhelp])) ?_
      intro a ha
      exact Or.inr (Or.inl (Option.some.inj ha ▸ hhelp))
    by_cases hversion : arg = "--version".toList
    · refine iff_of_true (ends_of_leave
        (by rw [vprocunhideOptions, if_neg hnil, if_neg hhelp, if_pos hversion])) ?_
      intro a ha
      exact Or.inr (Or.inr (Option.some.inj ha ▸ hversion))
    refine iff_of_false (not_ends_of_fixed
      (by rw [vprocunhideOptions, if_neg hnil, if_neg hhelp, if_neg hversion])) ?_
    intro h
    rcases h arg rfl with h | h | h
    · exact hnil h
    · exact hhelp h
    · exact hversion h

/-- **The option loops end** exactly when the first word that is looked at last is one they know. -/
theorem optionLoops_end (args : List Text) :
    (Ends stopOptions (args, false) ↔ StopKnows args) ∧
      (Ends vprocunhideOptions args ↔ VprocunhideKnows args) :=
  ⟨stopOptions_ends_iff args false, vprocunhideOptions_ends_iff args⟩

/-- A word without a dash is looked at again and again. -/
theorem optionLoops_spin : ¬ (∀ args, Ends stopOptions (args, false)) ∧
    ¬ ∀ args, Ends vprocunhideOptions args := by
  have hstop : stopOptions ([['n', 'o', 'w']], false) = .again ([['n', 'o', 'w']], false) := by
    rw [stopOptions, if_neg (by decide +kernel), if_neg (by decide +kernel), if_neg (by decide)]
  have hvproc : vprocunhideOptions [['n', 'o', 'w']] = .again [['n', 'o', 'w']] := by
    rw [vprocunhideOptions, if_neg (by decide), if_neg (by decide +kernel),
      if_neg (by decide +kernel)]
  exact ⟨fun h => not_ends_of_fixed hstop (h _), fun h => not_ends_of_fixed hvproc (h _)⟩

end OptionLoops
