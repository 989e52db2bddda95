import Barista.Proofs.Analysis.DeclaredName
import Barista.Proofs.Script.Indentation
import Barista.Proofs.Session.Transcript
import Barista.Proofs.Text.IdentifierClass

/-!
# Names in a script and identifiers of JavaScript

The names in a script come from the identifiers of the text.  A mark or a number behind a name is
harmless, so whether JavaScript can read what is written for an identifier depends on the characters
of the identifier alone.
-/

namespace Barista
namespace Script

open Barista.Core (Entity Entities Program)
open Scoping Scoping.Trail
open Text (isStray startsIdentifier continuesIdentifier isIdentifierName)

/-! ## Identifiers that JavaScript reads -/

/-- The name has no character that JavaScript keeps out of identifiers. -/
def Clean (name : String) : Prop := ∀ c ∈ name.toList, isStray c = false

instance (name : String) : Decidable (Clean name) :=
  decidable_of_iff (name.toList.all fun c ↦ !isStray c) (by simp [Clean])

theorem clean_append {name more : String} : Clean (name ++ more) ↔ Clean name ∧ Clean more := by
  rw [Clean, String.toList_append, List.forall_mem_append]
  rfl

theorem isStray_underscore : isStray '_' = false := by decide

theorem isStray_of_isDigit {c : Char} (h : c.isDigit) : isStray c = false := by
  obtain ⟨hlow, hhigh⟩ := Bool.and_eq_true_iff.1 h
  have hlow : 0x30 ≤ c.toNat := UInt32.le_iff_toNat_le.1 (of_decide_eq_true hlow)
  have hhigh : c.toNat ≤ 0x39 := UInt32.le_iff_toNat_le.1 (of_decide_eq_true hhigh)
  have hdecimal : Text.inRanges Text.decimalRanges c.toNat = true :=
    List.any_eq_true.2 ⟨(0x30, 0x39), List.mem_cons_self, by simp [hlow, hhigh]⟩
  have hletter : c.toNat ≠ 0x2e2f := by omega
  simp [isStray, hdecimal, hletter]

theorem startsIdentifier_of_startsName {c : Char} (h : Munch.startsName c) :
    startsIdentifier c = !isStray c := by
  rcases Bool.or_eq_true_iff.1 h with h | h
  · exact Text.startsIdentifier_of_isLetter h
  · rw [of_decide_eq_true h, isStray_underscore]
    simp [startsIdentifier]

theorem continuesIdentifier_of_continuesName {c : Char} (h : Munch.continuesName c) :
    continuesIdentifier c = !isStray c := by
  rcases Bool.or_eq_true_iff.1 h with h | h
  · rcases Bool.or_eq_true_iff.1 h with h | h
    · exact Text.continuesIdentifier_of_isLetter h
    · exact Text.continuesIdentifier_of_isNumber h
  · have hconnector : Text.inRanges Text.connectorRanges 95 = true := by decide
    have hpattern : Text.inRanges Text.patternRanges 95 = false := by decide
    rw [of_decide_eq_true h, isStray_underscore]
    simp [continuesIdentifier, Text.isIdContinue, hconnector, hpattern]

theorem isIdentifierName_iff {name : String} (h : isIdentifier name) :
    isIdentifierName name = true ↔ Clean name := by
  obtain ⟨c, cs, hname, hstart, hcontinues⟩ := exists_cons_of_isIdentifier h
  rw [isIdentifierName, Clean, hname, Bool.and_eq_true, List.all_eq_true, List.forall_mem_cons,
    startsIdentifier_of_startsName hstart, Bool.not_eq_true']
  refine and_congr_right fun _ ↦ forall₂_congr fun d hd ↦ ?_
  rw [continuesIdentifier_of_continuesName (hcontinues d (List.mem_cons_of_mem c hd)),
    Bool.not_eq_true']

theorem isIdentifier_of_mentions {source name : String} (h : Mentions source name) :
    isIdentifier name := by
  obtain ⟨c, cs, hname, hstart, hcontinues⟩ := Pattern.mem_name.1 (mem_name_of_mentions h)
  rw [isIdentifier, hname, Bool.and_eq_true, List.all_eq_true]
  exact ⟨hstart, hcontinues⟩

/-! ## What is written for a name -/

/-- The name itself, marked if it is reserved, or a numbered form of that. -/
inductive Variant (name : String) : String → Prop
  | safe : Variant name (safeName name)
  | numbered (k : Nat) : Variant name (numbered (safeName name) k)

theorem variant_freshName (used : List String) (name : String) :
    Variant name (freshName used name) := by
  simp only [freshName]
  split
  · obtain ⟨k, -, heq, -⟩ := firstFree_spec (safeName name) used 2
    rw [heq]
    exact .numbered k
  · exact .safe

theorem clean_safeName_iff {name : String} : Clean (safeName name) ↔ Clean name := by
  rw [safeName]
  split
  · have hmark : Clean "_" := by simp [Clean, isStray_underscore]
    rw [clean_append, and_iff_left hmark]
  · rfl

theorem clean_numbered_iff {base : String} {k : Nat} : Clean (numbered base k) ↔ Clean base := by
  have hmark : Clean "_" := by simp [Clean, isStray_underscore]
  have hdigits : Clean (toString k) := by
    intro c hc
    rw [Nat.toString_eq_ofList_toDigits, String.toList_ofList] at hc
    exact isStray_of_isDigit (isDigit_of_mem_toDigits c hc)
  rw [numbered, clean_append, clean_append, and_iff_left hdigits, and_iff_left hmark]

namespace Variant

variable {name word : String}

theorem not_reserved (h : Variant name word) : word ∉ reserved := by
  cases h with
  | safe => exact safeName_not_reserved name
  | numbered k =>
      apply not_reserved_of_underscore
      simp [Script.numbered]

theorem clean_iff (h : Variant name word) : Clean word ↔ Clean name := by
  cases h with
  | safe => exact clean_safeName_iff
  | numbered k => exact clean_numbered_iff.trans clean_safeName_iff

theorem isIdentifierName_iff (h : Variant name word) (hname : isIdentifier name) :
    isIdentifierName word = true ↔ Clean name := by
  have hword : isIdentifier word := by
    cases h with
    | safe => exact isIdentifier_safeName hname
    | numbered k => exact isIdentifier_numbered (isIdentifier_safeName hname) k
  rw [Script.isIdentifierName_iff hword, h.clean_iff]

end Variant

/-! ## Names in the lines of a script -/

namespace Names

/-- Every name that has been given is a form of the entity's own. -/
def Varies (names : Names) (entities : Entities) : Prop :=
  ∀ entity name, (entity, name) ∈ names.given → Variant (entities.nameOf entity) name

variable {names : Names} {entities : Entities}

theorem varies_empty : empty.Varies entities := by
  intro entity name h
  cases h

theorem Varies.declare (h : names.Varies entities) (entity : Entity) :
    (names.declare entities entity).2.Varies entities := by
  rw [Names.declare]
  split
  · exact h
  · intro other name hmem
    rcases List.mem_cons.1 hmem with heq | hmem
    · obtain ⟨rfl, rfl⟩ := Prod.mk.inj heq
      exact variant_freshName _ _
    · exact h other name hmem

theorem Varies.declareAll (h : names.Varies entities) (es : List Entity) :
    (names.declareAll entities es).2.Varies entities := by
  induction es generalizing names with
  | nil => exact h
  | cons entity es ih => exact ih (h.declare entity)

theorem Varies.refer (h : names.Varies entities) (entity : Entity) :
    Variant (entities.nameOf entity) (names.refer entities entity) := by
  rw [Names.refer]
  split
  · rename_i name hname
    obtain ⟨front, back, hgiven, -⟩ := List.lookup_eq_some_iff.1 hname
    exact h entity name (by simp [hgiven])
  · exact .safe

end Names

theorem varies_namesAfter (p : Program) (ls : List Sketch) :
    (namesAfter p ls).Varies p.entities := by
  rw [namesAfter_eq]
  exact Names.varies_empty.declareAll _

/-- All names in the script of a program have a property. -/
structure Spells (P : String → Prop) (p : Program) : Prop where
  /-- Line by line, the script is its sketch with the names given until then. -/
  written : generate p = (write p.entities .empty (sketch p)).1.map Line.indented
  /-- The names of what a line mentions, as they have been given in front of it. -/
  refs : ∀ front l back, sketch p = front ++ l :: back → ∀ entity ∈ l.refs,
    P ((namesAfter p front).refer p.entities entity)
  /-- The names of what a line introduces, as they have been given behind it. -/
  own : ∀ front l back, sketch p = front ++ l :: back → ∀ entity ∈ l.own,
    P ((namesAfter p (front ++ [l])).refer p.entities entity)

theorem spells_of_occurrences {p : Program} {P : String → Prop}
    (h : ∀ entity ∈ p.occurrences, ∀ word, Variant (p.entities.nameOf entity) word → P word) :
    Spells P p := by
  have hoccurs : ∀ front l back, sketch p = front ++ l :: back →
      contents l.trail ⊆ p.occurrences := by
    intro front l back hsplit entity hentity
    apply contents_ofBlock p.entities p.statements []
    rw [← ofProgram, ← allTrail_sketch, hsplit, allTrail_append, allTrail_cons, contents_append,
      contents_append]
    exact List.mem_append_right _ (List.mem_append_left _ hentity)
  refine ⟨generate_eq_write p, ?_, ?_⟩
  · intro front l back hsplit entity hentity
    have hentity := hoccurs front l back hsplit (refs_subset_contents l hentity)
    exact h entity hentity _ ((varies_namesAfter p front).refer entity)
  · intro front l back hsplit entity hentity
    have hentity := hoccurs front l back hsplit (own_subset_contents l hentity)
    exact h entity hentity _ ((varies_namesAfter p (front ++ [l])).refer entity)

/-- What is written for an identifier of a text is its safe name or a numbered form of that,
whatever names are in use.  It is never reserved, and JavaScript reads it as an identifier exactly
when the identifier has no stray character.  All names in a compiled script are written for
identifiers of the text, with the optimizer on or off. -/
theorem names_of_identifiers (source : String) :
    (∀ name, Mentions source name →
      (∀ used, Variant name (freshName used name)) ∧
      ∀ word, Variant name word →
        word ∉ reserved ∧ (isIdentifierName word = true ↔ Clean name)) ∧
    ∀ options script, compile options source = .ok script →
      ∃ p, analyze source = .ok p ∧ script = generateText (prepare options p).1 ∧
        Spells (fun word ↦ word ∉ reserved ∧ ∃ name, Mentions source name ∧ Variant name word ∧
          (isIdentifierName word = true ↔ Clean name)) (prepare options p).1 := by
  refine ⟨?_, ?_⟩
  · intro name hname
    refine ⟨fun used ↦ variant_freshName used name, ?_⟩
    intro word hword
    exact ⟨hword.not_reserved, hword.isIdentifierName_iff (isIdentifier_of_mentions hname)⟩
  · intro options script hscript
    obtain ⟨p, hp, rfl⟩ := compile_eq_ok_iff.1 hscript
    refine ⟨p, hp, rfl, spells_of_occurrences ?_⟩
    intro entity hentity word hword
    have hname : Mentions source ((prepare options p).1.entities.nameOf entity) :=
      forall_nameOf_prepare (P := Mentions source) options (fun _ ↦ mentions_nameOf hp) entity
        hentity
    exact ⟨hword.not_reserved, _, hname, hword,
      hword.isIdentifierName_iff (isIdentifier_of_mentions hname)⟩

/-- A reserved word is marked. -/
theorem names_of_identifiers_reserved :
    let source := "int new = 1"
    Mentions source "new" ∧ "new_" ∉ reserved ∧ isIdentifierName "new_" = true ∧
      ∃ p, analyze source = .ok p ∧ "let new_ = 1;" = generateText (prepare ⟨true⟩ p).1 ∧
        Spells (fun word ↦ word ∉ reserved ∧ ∃ name, Mentions source name ∧ Variant name word ∧
          (isIdentifierName word = true ↔ Clean name)) (prepare ⟨true⟩ p).1 := by
  intro source
  have hmentions : Mentions source "new" :=
    ⟨⟨.ident "new", ⟨4, 7⟩, false⟩, by decide +kernel, rfl⟩
  have hsafe : safeName "new" = "new_" := by decide
  have hvariant : Variant "new" "new_" := hsafe ▸ .safe
  have hcompile : compile ⟨true⟩ source = .ok "let new_ = 1;" := by decide +kernel
  obtain ⟨hnames, hscripts⟩ := names_of_identifiers source
  obtain ⟨hreserved, hvalid⟩ := (hnames "new" hmentions).2 "new_" hvariant
  exact ⟨hmentions, hreserved, hvalid.2 (by decide +kernel), hscripts ⟨true⟩ _ hcompile⟩

/-- A fraction may stand in an identifier of a text, and is written out as it is. -/
theorem fraction_written :
    let source := "int x½ = 1"
    Mentions source "x½" ∧ compile ⟨true⟩ source = .ok "let x½ = 1;" ∧
      isIdentifierName (safeName "x½") = false := by
  refine ⟨⟨⟨.ident "x½", ⟨4, 7⟩, false⟩, ?_, rfl⟩, ?_, ?_⟩
  · decide +kernel
  · decide +kernel
  · decide +kernel

end Script
end Barista
