import FontCompiler.Unicode.Script

/-!
# Layout tags lead back to their scripts

A registered tag is searched for in the table of registered tags, and any other tag made of
letters is read as a code with a small first letter. Both ways lead back to the script that
the tag belongs to, unless another script with the same tag stands first in the table: the
tags of inherited characters and of Katakana are those of common characters and of Hiragana.
-/

namespace FontCompiler

namespace Script

def hiragana : Script := ofChars 'H' 'i' 'r' 'a'

def katakana : Script := ofChars 'K' 'a' 'n' 'a'

/-- A capital letter of ASCII. -/
def IsCapital (byte : UInt8) : Prop := 65 ≤ byte ∧ byte ≤ 90

instance (byte : UInt8) : Decidable (IsCapital byte) := inferInstanceAs (Decidable (_ ∧ _))

/-- A code of four letters, the first of which is a capital one. -/
structure IsCode (script : Script) : Prop where
  capital : IsCapital script.tag.first
  letters : script.tag.bytes.all isLetterByte = true

instance (script : Script) : Decidable script.IsCode :=
  decidable_of_iff (IsCapital script.tag.first ∧ script.tag.bytes.all isLetterByte = true)
    ⟨fun both => ⟨both.1, both.2⟩, fun code => ⟨code.capital, code.letters⟩⟩

/-! ## Small first letters -/

/-- The small letter of a capital one lies 32 bytes further on. -/
theorem small_of_capital {byte : UInt8} (capital : IsCapital byte) :
    lowerByte byte = byte + 32 ∧ 97 ≤ byte + 32 ∧ byte + 32 ≤ 122 := by
  refine ⟨if_pos capital, ?_⟩
  obtain ⟨low, high⟩ := capital
  simp only [UInt8.le_iff_toNat_le, UInt8.toNat_add] at low high ⊢
  simp only [UInt8.reduceToNat] at low high ⊢
  omega

theorem isLetterByte_lowerByte {byte : UInt8} (capital : IsCapital byte) :
    isLetterByte (lowerByte byte) = true := by
  obtain ⟨small, low, high⟩ := small_of_capital capital
  simp [isLetterByte, small, low, high]

theorem upperByte_lowerByte {byte : UInt8} (capital : IsCapital byte) :
    upperByte (lowerByte byte) = byte := by
  obtain ⟨small, low, high⟩ := small_of_capital capital
  rw [small, upperByte, if_pos ⟨low, high⟩, UInt8.add_sub_cancel]

/-- The tag that a script has where none is registered for it. -/
def smallTag (script : Script) : Tag :=
  { script.tag with first := lowerByte script.tag.first }

/-- The script whose code is a tag with a capital first letter. -/
def ofSmallTag (tag : Tag) : Script := ⟨{ tag with first := upperByte tag.first }⟩

theorem ofSmallTag_smallTag {script : Script} (code : script.IsCode) :
    ofSmallTag script.smallTag = script := by
  unfold ofSmallTag smallTag
  simp only [upperByte_lowerByte code.capital]

theorem all_isLetterByte_smallTag {script : Script} (code : script.IsCode) :
    script.smallTag.bytes.all isLetterByte = true := by
  have letters := code.letters
  simp only [smallTag, Tag.bytes, List.all_cons, Bool.and_eq_true] at letters ⊢
  exact ⟨isLetterByte_lowerByte code.capital, letters.2⟩

theorem smallTag_ne_default {script : Script} (code : script.IsCode) :
    script.smallTag ≠ Tag.ofChars 'D' 'F' 'L' 'T' := by
  intro same
  obtain ⟨small, low, -⟩ := small_of_capital code.capital
  have first : script.tag.first + 32 = 68 := small.symm.trans (congrArg Tag.first same)
  rw [first] at low
  exact absurd low (by decide)

/-! ## Registered tags -/

/-- Every registered tag leads to a script that has it, and but for the two scripts whose tag
stands in an earlier row it leads to its own. -/
theorem ofLayoutTag?_registered : ∀ row ∈ registeredTags, ∀ tag ∈ row.2,
    (∃ owner, ofLayoutTag? tag = some owner ∧ tag ∈ owner.layoutTags) ∧
      (ofLayoutTag? tag = some row.1 ↔ row.1 ≠ inherited ∧ row.1 ≠ katakana) := by
  decide

theorem exists_registered : ∀ script ∈ [inherited, katakana],
    ∃ row ∈ registeredTags, row.1 = script := by
  decide

/-- A tag of letters that is registered for a script is read as the code of a registered one. -/
theorem registered_ofSmallTag : ∀ row ∈ registeredTags, !row.1.isDefault → ∀ tag ∈ row.2,
    tag.bytes.all isLetterByte = true →
      ∃ other ∈ registeredTags, other.1 = ofSmallTag tag := by
  decide

/-- No tag is registered that a script without a registered one has. -/
theorem find?_smallTag {script : Script} (code : script.IsCode)
    (unregistered : ∀ row ∈ registeredTags, row.1 ≠ script) :
    registeredTags.find? (fun row => !row.1.isDefault && row.2.contains script.smallTag) =
      none := by
  refine List.find?_eq_none.mpr fun row listed found => ?_
  obtain ⟨proper, has⟩ := Bool.and_eq_true_iff.mp found
  obtain ⟨other, registered, same⟩ := registered_ofSmallTag row listed proper script.smallTag
    (List.contains_iff_mem.mp has) (all_isLetterByte_smallTag code)
  exact unregistered other registered (same.trans (ofSmallTag_smallTag code))

theorem ofLayoutTag?_smallTag {script : Script} (code : script.IsCode)
    (unregistered : ∀ row ∈ registeredTags, row.1 ≠ script) :
    ofLayoutTag? script.smallTag = some script := by
  unfold ofLayoutTag?
  rw [if_neg (smallTag_ne_default code), find?_smallTag code unregistered]
  exact (if_pos (all_isLetterByte_smallTag code)).trans
    (congrArg some (ofSmallTag_smallTag code))

theorem layoutTags_cases (script : Script) :
    (∃ row ∈ registeredTags, row.1 = script ∧ script.layoutTags = row.2) ∨
      (∀ row ∈ registeredTags, row.1 ≠ script) ∧ script.layoutTags = [script.smallTag] := by
  unfold layoutTags
  split
  · next row found =>
      have same := List.find?_some found
      exact .inl ⟨row, List.mem_of_find?_eq_some found, of_decide_eq_true same, rfl⟩
  · next missing =>
      exact .inr ⟨fun row listed same =>
        List.find?_eq_none.mp missing row listed (decide_eq_true same), rfl⟩

/-- A layout tag of a script leads to a script that has the tag, and to the script itself but
for the two scripts whose one tag an earlier script has. -/
theorem ofLayoutTag?_layoutTags {script : Script} (code : script.IsCode) {tag : Tag}
    (listed : tag ∈ script.layoutTags) :
    (∃ owner, ofLayoutTag? tag = some owner ∧ tag ∈ owner.layoutTags) ∧
      (ofLayoutTag? tag = some script ↔ script ≠ inherited ∧ script ≠ katakana) := by
  rcases layoutTags_cases script with ⟨row, registered, rfl, tags⟩ | ⟨unregistered, tags⟩
  · exact ofLayoutTag?_registered row registered tag (tags ▸ listed)
  · obtain rfl : tag = script.smallTag := List.mem_singleton.mp (tags ▸ listed)
    have back := ofLayoutTag?_smallTag code unregistered
    have other : ∀ shared ∈ [inherited, katakana], script ≠ shared := by
      rintro shared member rfl
      obtain ⟨row, registered, own⟩ := exists_registered script member
      exact unregistered row registered own
    exact ⟨⟨script, back, listed⟩,
      fun _ => ⟨other inherited (by decide), other katakana (by decide)⟩, fun _ => back⟩

/-- The newer tag of Devanagari, which no rule of spelling makes from its code. -/
theorem ofLayoutTag?_devanagari :
    devanagari.IsCode ∧ Tag.ofChars 'd' 'e' 'v' '2' ∈ devanagari.layoutTags ∧
      ofLayoutTag? (Tag.ofChars 'd' 'e' 'v' '2') = some devanagari := by
  have code : devanagari.IsCode := by decide
  have listed : Tag.ofChars 'd' 'e' 'v' '2' ∈ devanagari.layoutTags := by decide
  exact ⟨code, listed, (ofLayoutTag?_layoutTags code listed).2.mpr (by decide)⟩

/-- The tag of Katakana leads to Hiragana, which has it too and stands first. -/
theorem not_forall_ofLayoutTag?_layoutTags :
    ¬ ∀ script : Script, script.IsCode → script ≠ inherited → ∀ tag ∈ script.layoutTags,
      ofLayoutTag? tag = some script := by
  intro inverse
  have lost : ofLayoutTag? (Tag.ofChars 'k' 'a' 'n' 'a') = some hiragana := by decide
  have kept := inverse katakana (by decide) (by decide) (Tag.ofChars 'k' 'a' 'n' 'a') (by decide)
  exact absurd (lost.symm.trans kept) (by decide)

end Script

end FontCompiler
