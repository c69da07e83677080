import Mathlib.Data.Nat.Init
import FontCompiler.Proofs.Feature.NewNames

/-!
# Given names

A wanted name that is free is given as it stands. For a taken one the numbers are tried
from one on, and the search ends because different numbers make different names and only
finitely many names are taken. Names given one after another, each taken once it is given,
are distinct, also where a numbered name is itself wanted later.
-/

namespace FontCompiler

/-- The open search for a number from a number on: a taken name leads on to the next number. -/
inductive FindsNumber (name : String) (taken : SortedSet String) : Nat → Nat → Prop where
  | here {number : Nat} (free : numberedName name number ∉ taken) :
      FindsNumber name taken number number
  | next {number found : Nat} (used : numberedName name number ∈ taken)
      (later : FindsNumber name taken (number + 1) found) :
      FindsNumber name taken number found

/-- The search ends at a free number before which all are taken. -/
theorem FindsNumber.of_least {name : String} {taken : SortedSet String} {number found : Nat}
    (reached : number ≤ found) (free : numberedName name found ∉ taken)
    (least : ∀ smaller, number ≤ smaller → smaller < found → numberedName name smaller ∈ taken) :
    FindsNumber name taken number found := by
  induction reached using Nat.decreasingInduction with
  | self => exact .here free
  | of_succ number below ih =>
      exact .next (least number (Nat.le_refl _) below)
        (ih fun smaller above => least smaller (Nat.le_of_succ_le above))

/-- What is given for a wanted name: the name while it is free, and otherwise the name with
the least number, from one on, that is free. -/
structure GivenFor (name : String) (taken : SortedSet String) (given : String) : Prop where
  kept : name ∉ taken → given = name
  numbered : name ∈ taken → ∃ number, FindsNumber name taken 1 number ∧
    given = numberedName name number ∧ 1 ≤ number ∧ numberedName name number ∉ taken ∧
      ∀ smaller, 1 ≤ smaller → smaller < number → numberedName name smaller ∈ taken

theorem givenFor_freshName (name : String) (taken : SortedSet String) :
    GivenFor name taken (freshName name taken) where
  kept free := if_neg free
  numbered found := by
    obtain ⟨number, named, free, least⟩ := freshName_of_mem found
    have leastFromOne : ∀ smaller, 1 ≤ smaller → smaller < number + 1 →
        numberedName name smaller ∈ taken := by
      intro smaller positive below
      have before := least (smaller - 1) (by omega)
      rwa [Nat.sub_add_cancel positive] at before
    exact ⟨number + 1, .of_least (Nat.le_add_left 1 number) free leastFromOne, named,
      Nat.le_add_left 1 number, free, leastFromOne⟩

/-- The names given to wanted names one after another, each taken once it is given. -/
def givenNames (give : String → SortedSet String → String) (taken : SortedSet String) :
    List String → List String
  | [] => []
  | wanted :: rest =>
      give wanted taken :: givenNames give (taken.insert (give wanted taken)) rest

theorem length_givenNames (give : String → SortedSet String → String)
    (taken : SortedSet String) (wanted : List String) :
    (givenNames give taken wanted).length = wanted.length := by
  induction wanted generalizing taken with
  | nil => rfl
  | cons first rest ih => exact congrArg Nat.succ (ih _)

/-- Where no given name is taken, names given one after another are new. -/
theorem exists_newNames_givenNames {give : String → SortedSet String → String}
    (free : ∀ name taken, give name taken ∉ taken) (taken : SortedSet String)
    (wanted : List String) : ∃ after, NewNames taken after (givenNames give taken wanted) := by
  induction wanted generalizing taken with
  | nil => exact ⟨taken, .start taken⟩
  | cons first rest ih =>
      obtain ⟨after, later⟩ := ih (taken.insert (give first taken))
      exact ⟨after, (NewNames.single (free first taken)).trans later⟩

/-- A way of giving names, by the name that it wishes to give for a wanted one. -/
structure GivesFresh (wish : String → String) (give : String → SortedSet String → String) :
    Prop where
  exact : ∀ name taken, GivenFor (wish name) taken (give name taken)
  free : ∀ name taken, give name taken ∉ taken
  oneForEach : ∀ taken wanted, (givenNames give taken wanted).length = wanted.length
  distinct : ∀ taken wanted, (givenNames give taken wanted).Nodup
  apart : ∀ taken wanted name, name ∈ givenNames give taken wanted → name ∉ taken

theorem givesFresh_of_freshName (wish : String → String) :
    GivesFresh wish fun name taken => freshName (wish name) taken := by
  have free : ∀ name taken, freshName (wish name) taken ∉ taken :=
    fun name taken => freshName_not_mem (wish name) taken
  refine
    { exact := fun name taken => givenFor_freshName (wish name) taken
      free
      oneForEach := length_givenNames _
      distinct := ?_
      apart := ?_ }
  · intro taken wanted
    obtain ⟨after, new⟩ := exists_newNames_givenNames free taken wanted
    exact new.distinct
  · intro taken wanted
    obtain ⟨after, new⟩ := exists_newNames_givenNames free taken wanted
    exact new.free

-- The numbered name for the second wish is itself wished for afterwards.
example : givenNames freshName .empty ["top", "top", "top_1"] = ["top", "top_1", "top_1_1"] := by
  decide +kernel

/-- A letter or digit of ASCII, a full stop or a low line. -/
def InClassNames (char : Char) : Prop :=
  'A' ≤ char ∧ char ≤ 'Z' ∨ 'a' ≤ char ∧ char ≤ 'z' ∨ '0' ≤ char ∧ char ≤ '9' ∨
    char = '.' ∨ char = '_'

instance (char : Char) : Decidable (InClassNames char) :=
  inferInstanceAs (Decidable (_ ∨ _))

theorem isClassNameChar_iff (char : Char) : isClassNameChar char = true ↔ InClassNames char := by
  change (decide ('A' ≤ char ∧ char ≤ 'Z') || (decide ('a' ≤ char) && decide (char ≤ 'z')) ||
    (decide ('0' ≤ char) && decide (char ≤ '9')) || decide (char = '.') ||
      decide (char = '_')) = true ↔ _
  simp only [Bool.or_eq_true, Bool.and_eq_true, decide_eq_true_eq, or_assoc]
  rfl

/-- A name without the characters that may not stand in the name of a class. -/
def strippedName (name : String) : String :=
  String.ofList (name.toList.filter fun char => InClassNames char)

/-- A text whose characters may all stand in the name of a class. -/
def IsClassName (text : String) : Prop := ∀ char ∈ text.toList, InClassNames char

theorem freshClassName_eq (name : String) (taken : SortedSet String) :
    freshClassName name taken = freshName (strippedName name) taken := by
  unfold freshClassName strippedName
  congr 3
  exact funext fun char => Bool.eq_iff_iff.mpr
    ((isClassNameChar_iff char).trans decide_eq_true_iff.symm)

theorem isClassName_strippedName (name : String) : IsClassName (strippedName name) := by
  intro char listed
  rw [strippedName, String.toList_ofList] at listed
  exact of_decide_eq_true (List.mem_filter.mp listed).2

theorem IsClassName.numberedName {name : String} (allowed : IsClassName name) (number : Nat) :
    IsClassName (numberedName name number) := by
  intro char listed
  rw [FontCompiler.numberedName, String.toList_append, String.toList_append, List.mem_append,
    List.mem_append, or_assoc] at listed
  rcases listed with own | line | digit
  · exact allowed char own
  · rw [List.mem_singleton.mp line]
    decide
  · rw [Nat.toString_eq_ofList_toDigits, String.toList_ofList] at digit
    have isDigit : char.isDigit = true :=
      Nat.isDigit_of_mem_toDigits (by decide) (by decide) digit
    exact (isClassNameChar_iff char).mp (by simp [isClassNameChar, Char.isAlphanum, isDigit])

theorem GivenFor.isClassName {name given : String} {taken : SortedSet String}
    (exact : GivenFor name taken given) (allowed : IsClassName name) : IsClassName given := by
  by_cases found : name ∈ taken
  · obtain ⟨number, -, rfl, -⟩ := exact.numbered found
    exact allowed.numberedName number
  · rwa [exact.kept found]

/-- Names given to lookups and classes are fresh and have the least number possible; those
of classes are made of the characters that may stand in them. -/
theorem given_names_fresh_and_least :
    GivesFresh id freshName ∧ GivesFresh strippedName freshClassName ∧
      ∀ name taken, IsClassName (freshClassName name taken) := by
  have classNames : freshClassName = fun name taken => freshName (strippedName name) taken :=
    funext fun name => funext (freshClassName_eq name)
  refine ⟨givesFresh_of_freshName id, ?_, ?_⟩
  · rw [classNames]
    exact givesFresh_of_freshName strippedName
  · intro name taken
    rw [freshClassName_eq]
    exact (givenFor_freshName (strippedName name) taken).isClassName (isClassName_strippedName name)

end FontCompiler
