import Mathlib.Computability.Language
import Barista.Token.Munch

/-!
# The patterns of tokens

The texts of each kind of token as a language, and the token that such a text stands for.  Nothing
here speaks of reading: a text has a pattern wherever it stands.  The first character of a text
already tells its kind, up to whole numbers and doubles on the one hand and names and keywords on
the other.
-/

namespace Barista

open Computability

namespace Pattern

open Munch (startsName continuesName isDigit_eq_false_of_startsName)

/-- The texts of one character with the property `p`. -/
def one (p : Char → Bool) : Language Char := {text | ∃ c, p c = true ∧ text = [c]}

def digits : Language Char := one Char.isDigit * (one Char.isDigit)∗

def exponent : Language Char :=
  one (fun c ↦ c = 'e' || c = 'E') * (1 + one fun c ↦ c = '+' || c = '-') * digits

def double : Language Char :=
  digits * one (· = '.') * digits * (1 + exponent) + digits * exponent

/-- What follows the digits of a double. -/
def ending : Language Char := one (· = '.') * digits * (1 + exponent) + exponent

/-- What one character of a string is written as. -/
def stringUnit : Language Char :=
  one (fun c ↦ c ≠ '"' && c ≠ '\\' && c ≠ '\n') + one (· = '\\') * one (· ≠ '\n')

def string : Language Char := one (· = '"') * stringUnit∗ * one (· = '"')

def name : Language Char := one startsName * (one continuesName)∗

def keyword : Language Char := {text | ∃ k : Keyword, text = k.text.toList}

def mark : Language Char :=
  {text | (∃ s : Symbol, text = s.text.toList) ∨ ∃ p : Punct, text = p.text.toList}

def token : Language Char := digits + double + string + name + keyword + mark

/-! ## Membership -/

variable {p : Char → Bool} {l : Language Char} {text : List Char} {c : Char}

theorem mem_one_mul : text ∈ one p * l ↔ ∃ c rest, text = c :: rest ∧ p c = true ∧ rest ∈ l := by
  simp only [Language.mem_mul]
  constructor
  · rintro ⟨_, ⟨c, hc, rfl⟩, rest, hrest, rfl⟩
    exact ⟨c, rest, rfl, hc, hrest⟩
  · rintro ⟨c, rest, rfl, hc, hrest⟩
    exact ⟨[c], ⟨c, hc, rfl⟩, rest, hrest, rfl⟩

theorem mem_kstar_one : text ∈ (one p)∗ ↔ ∀ c ∈ text, p c = true := by
  rw [Language.mem_kstar]
  constructor
  · rintro ⟨units, rfl, hunits⟩ c hc
    obtain ⟨unit, hunit, hmem⟩ := List.mem_flatten.1 hc
    obtain ⟨d, hd, rfl⟩ := hunits unit hunit
    rwa [List.mem_singleton.1 hmem]
  · intro h
    refine ⟨text.map ([·]), by simp [← List.flatMap_def], ?_⟩
    intro unit hunit
    obtain ⟨c, hc, rfl⟩ := List.mem_map.1 hunit
    exact ⟨c, h c hc, rfl⟩

theorem mem_digits : text ∈ digits ↔ text ≠ [] ∧ ∀ c ∈ text, c.isDigit = true := by
  simp only [digits, mem_one_mul, mem_kstar_one]
  constructor
  · rintro ⟨c, rest, rfl, hc, hrest⟩
    exact ⟨List.cons_ne_nil c rest, List.forall_mem_cons.2 ⟨hc, hrest⟩⟩
  · rintro ⟨hne, hall⟩
    obtain ⟨c, rest, rfl⟩ := List.exists_cons_of_ne_nil hne
    exact ⟨c, rest, rfl, List.forall_mem_cons.1 hall⟩

theorem mem_exponent : text ∈ exponent ↔ ∃ mark sign number,
    text = mark :: (sign ++ number) ∧ (mark = 'e' ∨ mark = 'E') ∧
      (sign = [] ∨ sign = ['+'] ∨ sign = ['-']) ∧ number ∈ digits := by
  have hsign : ∀ sign, sign ∈ (1 + one fun c ↦ c = '+' || c = '-' : Language Char) ↔
      sign = [] ∨ sign = ['+'] ∨ sign = ['-'] := by
    intro sign
    simp only [Language.mem_add, Language.mem_one]
    refine or_congr_right ⟨?_, ?_⟩
    · rintro ⟨c, hc, rfl⟩
      simpa using hc
    · rintro (rfl | rfl)
      · exact ⟨'+', rfl, rfl⟩
      · exact ⟨'-', rfl, rfl⟩
  rw [exponent, mul_assoc, mem_one_mul]
  simp only [Language.mem_mul, hsign, Bool.or_eq_true, decide_eq_true_eq]
  constructor
  · rintro ⟨mark, _, rfl, hmark, sign, hsign, number, hnumber, rfl⟩
    exact ⟨mark, sign, number, rfl, hmark, hsign, hnumber⟩
  · rintro ⟨mark, sign, number, rfl, hmark, hsign, hnumber⟩
    exact ⟨mark, _, rfl, hmark, sign, hsign, number, hnumber, rfl⟩

theorem mem_ending : text ∈ ending ↔
    (∃ fraction ∈ digits, ∃ e, (e = [] ∨ e ∈ exponent) ∧ text = '.' :: (fraction ++ e)) ∨
      text ∈ exponent := by
  rw [ending, mul_assoc, Language.mem_add, mem_one_mul]
  simp only [Language.mem_mul, Language.mem_add, Language.mem_one, decide_eq_true_eq]
  refine or_congr_left ⟨?_, ?_⟩
  · rintro ⟨_, _, rfl, rfl, fraction, hfraction, e, he, rfl⟩
    exact ⟨fraction, hfraction, e, he, rfl⟩
  · rintro ⟨fraction, hfraction, e, he, rfl⟩
    exact ⟨'.', _, rfl, rfl, fraction, hfraction, e, he, rfl⟩

theorem mem_double : text ∈ double ↔ ∃ whole ∈ digits, ∃ rest ∈ ending, whole ++ rest = text := by
  have hdouble : double = digits * ending := by
    simp only [double, ending, mul_add, mul_assoc]
  rw [hdouble, Language.mem_mul]

theorem ne_nil_of_mem_double (h : text ∈ double) : text ≠ [] := by
  rintro rfl
  obtain ⟨whole, hwhole, rest, -, htext⟩ := mem_double.1 h
  exact (mem_digits.1 hwhole).1 (List.append_eq_nil_iff.1 htext).1

/-- The digits of a double end where its ending begins. -/
theorem exists_cons_of_mem_ending (h : text ∈ ending) :
    ∃ c rest, text = c :: rest ∧ c.isDigit = false := by
  rcases mem_ending.1 h with ⟨fraction, -, e, -, rfl⟩ | h
  · exact ⟨'.', _, rfl, by decide⟩
  · obtain ⟨mark, sign, number, rfl, rfl | rfl, -⟩ := mem_exponent.1 h
    · exact ⟨'e', _, rfl, by decide⟩
    · exact ⟨'E', _, rfl, by decide⟩

theorem mem_stringUnit : text ∈ stringUnit ↔
    (∃ c, (c ≠ '"' ∧ c ≠ '\\' ∧ c ≠ '\n') ∧ text = [c]) ∨ ∃ c, c ≠ '\n' ∧ text = ['\\', c] := by
  rw [stringUnit, Language.mem_add, mem_one_mul]
  refine or_congr ⟨?_, ?_⟩ ⟨?_, ?_⟩
  · rintro ⟨c, hc, rfl⟩
    exact ⟨c, by simpa [and_assoc] using hc, rfl⟩
  · rintro ⟨c, hc, rfl⟩
    exact ⟨c, by simpa [and_assoc] using hc, rfl⟩
  · rintro ⟨_, _, rfl, hbackslash, c, hc, rfl⟩
    exact ⟨c, by simpa using hc, by rw [of_decide_eq_true hbackslash]⟩
  · rintro ⟨c, hc, rfl⟩
    exact ⟨'\\', [c], rfl, rfl, c, by simpa using hc, rfl⟩

theorem mem_string : text ∈ string ↔ ∃ body ∈ stringUnit∗, text = '"' :: (body ++ ['"']) := by
  rw [string, mul_assoc, mem_one_mul]
  constructor
  · rintro ⟨_, _, rfl, hopen, hrest⟩
    obtain ⟨body, hbody, _, ⟨_, hclose, rfl⟩, rfl⟩ := Language.mem_mul.1 hrest
    refine ⟨body, hbody, ?_⟩
    rw [of_decide_eq_true hopen, of_decide_eq_true hclose]
  · rintro ⟨body, hbody, rfl⟩
    exact ⟨'"', _, rfl, rfl, Language.mem_mul.2 ⟨body, hbody, ['"'], ⟨'"', rfl, rfl⟩, rfl⟩⟩

theorem mem_name : text ∈ name ↔
    ∃ c rest, text = c :: rest ∧ startsName c = true ∧ ∀ d ∈ rest, continuesName d = true := by
  simp only [name, mem_one_mul, mem_kstar_one]

/-- Every keyword has the form of a name. -/
theorem mem_name_of_mem_keyword (h : text ∈ keyword) : text ∈ name := by
  obtain ⟨k, rfl⟩ := h
  have hk : k.text.toList.head?.any startsName = true ∧
      k.text.toList.tail.all continuesName = true := by
    cases k <;> decide
  cases htext : k.text.toList with
  | nil =>
      rw [htext] at hk
      cases hk.1
  | cons c rest =>
      rw [htext] at hk
      exact mem_name.2 ⟨c, rest, rfl, hk.1, List.all_eq_true.1 hk.2⟩

theorem mem_keyword_iff : text ∈ keyword ↔ (Keyword.ofText? (String.ofList text)).isSome := by
  constructor
  · rintro ⟨k, rfl⟩
    rw [String.ofList_toList, Keyword.ofText?_text]
    rfl
  · intro h
    obtain ⟨k, hk⟩ := Option.isSome_iff_exists.1 h
    exact ⟨k, by rw [Keyword.text_of_ofText? hk, String.toList_ofList]⟩

/-! ## First characters -/

/-- What the first character of a text tells about its kind. -/
inductive Lead
  | digit | quote | letter | other
deriving DecidableEq

def lead (c : Char) : Lead :=
  if c.isDigit then .digit else if c = '"' then .quote else if startsName c then .letter else .other

theorem lead_of_mem_digits (h : c :: text ∈ digits) : lead c = .digit :=
  if_pos ((mem_digits.1 h).2 c List.mem_cons_self)

theorem lead_of_mem_double (h : c :: text ∈ double) : lead c = .digit := by
  obtain ⟨whole, hwhole, rest, -, htext⟩ := mem_double.1 h
  obtain ⟨d, ds, rfl⟩ := List.exists_cons_of_ne_nil (mem_digits.1 hwhole).1
  cases htext
  exact lead_of_mem_digits hwhole

theorem lead_of_mem_string (h : c :: text ∈ string) : lead c = .quote := by
  obtain ⟨body, -, htext⟩ := mem_string.1 h
  cases htext
  rfl

theorem lead_of_startsName (h : startsName c = true) : lead c = .letter := by
  have hquote : c ≠ '"' := by
    rintro rfl
    exact absurd h (by decide)
  rw [lead, if_neg (by simp [isDigit_eq_false_of_startsName h]), if_neg hquote, if_pos h]

theorem lead_of_mem_name (h : c :: text ∈ name) : lead c = .letter := by
  obtain ⟨_, _, htext, hc, -⟩ := mem_name.1 h
  cases htext
  exact lead_of_startsName hc

/-- What holds of the first character of every mark. -/
theorem of_cons_mem_mark (hsymbol : ∀ s : Symbol, s.text.toList.head?.all p = true)
    (hpunct : ∀ m : Punct, m.text.toList.head?.all p = true) (h : c :: text ∈ mark) :
    p c = true := by
  rcases h with ⟨s, hs⟩ | ⟨m, hm⟩
  · simpa [← hs] using hsymbol s
  · simpa [← hm] using hpunct m

theorem lead_of_mem_mark (h : c :: text ∈ mark) : lead c = .other := by
  have hlead : decide (lead c = .other) = true := by
    refine of_cons_mem_mark (p := fun c ↦ lead c = .other) ?_ ?_ h
    · intro s
      cases s <;> decide
    · intro m
      cases m <;> decide
  exact of_decide_eq_true hlead

/-- The kinds of token that begin with a character. -/
theorem cons_mem_token_iff : c :: text ∈ token ↔
    match lead c with
    | .digit => c :: text ∈ digits ∨ c :: text ∈ double
    | .quote => c :: text ∈ string
    | .letter => c :: text ∈ name
    | .other => c :: text ∈ mark := by
  simp only [token, Language.mem_add]
  constructor
  · rintro (((((h | h) | h) | h) | h) | h)
    · rw [lead_of_mem_digits h]
      exact .inl h
    · rw [lead_of_mem_double h]
      exact .inr h
    · rwa [lead_of_mem_string h]
    · rwa [lead_of_mem_name h]
    · rw [lead_of_mem_name (mem_name_of_mem_keyword h)]
      exact mem_name_of_mem_keyword h
    · rwa [lead_of_mem_mark h]
  · intro h
    split at h
    · exact h.elim (fun h ↦ by simp [h]) (fun h ↦ by simp [h])
    all_goals simp [h]

theorem ne_nil_of_mem_token (h : text ∈ token) : text ≠ [] := by
  have hname : [] ∉ name := by simp [mem_name]
  rintro rfl
  simp only [token, Language.mem_add] at h
  rcases h with (((((h | h) | h) | h) | h) | h)
  · exact (mem_digits.1 h).1 rfl
  · exact ne_nil_of_mem_double h rfl
  · obtain ⟨body, -, htext⟩ := mem_string.1 h
    cases htext
  · exact hname h
  · exact hname (mem_name_of_mem_keyword h)
  · rcases h with ⟨s, hs⟩ | ⟨p, hp⟩
    · cases s <;> exact absurd hs (by decide)
    · cases p <;> exact absurd hp (by decide)

/-! ## What a text stands for -/

/-- `Spells body value`: between quotes `body` stands for `value`.  A character stands for itself,
and behind a backslash for the character it names. -/
inductive Spells : List Char → List Char → Prop
  | nil : Spells [] []
  | plain {c : Char} {body value : List Char} (hc : c ≠ '\\') (h : Spells body value) :
      Spells (c :: body) (c :: value)
  | escape {c d : Char} {body value : List Char} (hc : Munch.unescape? c = some d)
      (h : Spells body value) : Spells ('\\' :: c :: body) (d :: value)

/-- `Denotes text token`: wherever it stands, `text` means `token`.  A keyword is no name. -/
def Denotes (text : List Char) : Token → Prop
  | .int n => text ∈ digits ∧ n.toInt = digitsValue text
  | .double d =>
    text ∈ double ∧ Double.read? (String.ofList text) = some d ∧ d.isFinite = true
  | .string value =>
    ∃ body ∈ stringUnit∗, text = '"' :: (body ++ ['"']) ∧ Spells body value.toList
  | .ident x => text ∈ name ∧ text ∉ keyword ∧ x.toList = text
  | .keyword k => text = k.text.toList
  | .symbol s => text = s.text.toList
  | .punct p => text = p.text.toList

/-- `text` is the longest text with the pattern of a token at the front of `text ++ rest`. -/
def Longest (text rest : List Char) : Prop :=
  text ∈ token ∧ ∀ other ∈ token, other <+: text ++ rest → other.length ≤ text.length

/-- No text at the front of `rest` has the pattern of a token. -/
def Unmatched (rest : List Char) : Prop := ∀ other ∈ token, ¬ other <+: rest

theorem exists_cons_of_front {other : List Char} (hother : other ∈ token)
    (hfront : other <+: c :: text) : ∃ rest, other = c :: rest := by
  obtain ⟨d, rest, rfl⟩ := List.exists_cons_of_ne_nil (ne_nil_of_mem_token hother)
  obtain rfl : d = c := (List.cons_prefix_cons.1 hfront).1
  exact ⟨rest, rfl⟩

theorem lead_of_denotes {t : Token} (h : Denotes (c :: text) t) :
    lead c =
      match t with
      | .int _ | .double _ => .digit
      | .string _ => .quote
      | .ident _ | .keyword _ => .letter
      | .symbol _ | .punct _ => .other := by
  cases t with
  | int n => exact lead_of_mem_digits h.1
  | double d => exact lead_of_mem_double h.1
  | string value =>
      obtain ⟨body, hbody, htext, -⟩ := h
      exact lead_of_mem_string (mem_string.2 ⟨body, hbody, htext⟩)
  | ident x => exact lead_of_mem_name h.1
  | keyword k => exact lead_of_mem_name (mem_name_of_mem_keyword ⟨k, h⟩)
  | symbol s => exact lead_of_mem_mark (.inl ⟨s, h⟩)
  | punct p => exact lead_of_mem_mark (.inr ⟨p, h⟩)

/-- A double is no run of digits. -/
theorem notMem_digits_of_mem_double (h : text ∈ double) : text ∉ digits := by
  intro hdigits
  obtain ⟨whole, -, rest, hrest, rfl⟩ := mem_double.1 h
  obtain ⟨c, cs, rfl, hc⟩ := exists_cons_of_mem_ending hrest
  have hdigit : c.isDigit = true := (mem_digits.1 hdigits).2 c (by simp)
  rw [hc] at hdigit
  cases hdigit

end Pattern
end Barista
