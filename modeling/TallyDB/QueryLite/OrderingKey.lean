import Mathlib.Data.List.TakeWhile
import TallyDB.QueryLite.Plan
import TallyDB.QueryLite.Reading

/-!
# The ORDERING KEY rewrite

The parser does not know `ORDERING KEY`, so the text of a `CREATE TABLE` has it rewritten to
`PRIMARY KEY` first, and a `PRIMARY KEY` of the user's own is refused. The rewrite follows quotes by
itself and reads comments as code.
-/

namespace TallyDB

/-- `char::is_alphanumeric`. -/
class Alphabet where
  isAlphanumeric : Char → Bool
  ascii : ∀ c, c.toNat < 128 → isAlphanumeric c = c.isAlphanum

/-- What may follow a character within a word. -/
def continues [Alphabet] (c : Char) : Bool := Alphabet.isAlphanumeric c || c == '_'

def equalsIgnoreAsciiCase (c w : Char) : Bool := c.toLower == w.toLower

def startsWord : List Char → List Char → Bool
  | _, [] => true
  | [], _ :: _ => false
  | c :: chars, w :: word' => equalsIgnoreAsciiCase c w && startsWord chars word'

/-- The length of `wordA <whitespace> wordB` at the head of `rest`. What stands before comes
with its last character first. -/
def phraseAt [Alphabet] (before rest wordA wordB : List Char) : Option Nat :=
  let spaces := ((rest.drop wordA.length).takeWhile isWhitespace).length
  let reach := wordA.length + spaces + wordB.length
  let boundary := !(rest.drop reach).head?.any continues
  let startOk := !before.head?.any continues
  -- A constraint never opens a definition, nor the statement.
  let constraintPosition := (before.find? (!isWhitespace ·)).any fun c => c != '(' && c != ','
  if startsWord rest wordA && spaces != 0 && startsWord (rest.drop (wordA.length + spaces)) wordB &&
    startOk && boundary && constraintPosition then some reach
  else none

def primaryKeyRefused : QueryError :=
  .unsupported ("PRIMARY KEY: TallyDB's ordering key is not a uniqueness constraint (duplicate " ++
    "ordering-key values are first-class) — declare the ingest-order column with ORDERING KEY")

/-- The rewrite, past what stands before. `passing` counts what is left of a phrase that is
rewritten already. -/
def rewriteFrom [Alphabet] (before : List Char) (quote : Option Char) (passing : Nat) : List Char →
    Except QueryError (List Char)
  | [] => .ok []
  | c :: rest =>
    match passing with
    | passing + 1 => rewriteFrom (c :: before) quote passing rest
    | 0 =>
      match quote with
      | some opened =>
          (c :: ·) <$> rewriteFrom (c :: before) (if c = opened then none else some opened) 0 rest
      | none =>
        if c = '\'' ∨ c = '"' then (c :: ·) <$> rewriteFrom (c :: before) (some c) 0 rest
        else if (phraseAt before (c :: rest) "primary".toList "key".toList).isSome
          then .error primaryKeyRefused
        else match phraseAt before (c :: rest) "ordering".toList "key".toList with
          | some reach =>
              ("PRIMARY KEY".toList ++ ·) <$> rewriteFrom (c :: before) none (reach - 1) rest
          | none => (c :: ·) <$> rewriteFrom (c :: before) none 0 rest

def rewriteOrderingKey [Alphabet] (sql : List Char) : Except QueryError (List Char) :=
  rewriteFrom [] none 0 sql

/-! ### What the rewrite is for -/

/-- Two words of a text, whatever their case, with something between and no letter or digit right
beside them. -/
structure Phrase [Alphabet] (text : List (Char × Role)) (first second : String) where
  head : List (Char × Role)
  run : List (Char × Role)
  gap : List (Char × Role)
  run' : List (Char × Role)
  tail : List (Char × Role)
  split : text = head ++ (run ++ (gap ++ (run' ++ tail)))
  first_ : (chars run).map Char.toLower = first.toList
  second_ : (chars run').map Char.toLower = second.toList
  apart : gap ≠ []
  before : ∀ m, head.getLast? = some m → continues m.1 = false
  after : ∀ m, tail.head? = some m → continues m.1 = false

namespace Phrase

variable [Alphabet] {text : List (Char × Role)} {first second : String}

def start (p : Phrase text first second) : Nat := p.head.length

def reach (p : Phrase text first second) : Nat := (p.run ++ (p.gap ++ p.run')).length

/-- The words are outside quotations and comments, and between them are only whitespace and
comments. -/
structure Stands (p : Phrase text first second) : Prop where
  run : ∀ m ∈ p.run, m.2 = .code
  gap : ∀ m ∈ p.gap, isGap m = true
  run' : ∀ m ∈ p.run', m.2 = .code

end Phrase

/-- The phrase stands in the text from `start` on, and is that long. -/
def StandsAt [Alphabet] (text : List (Char × Role)) (first second : String)
    (start reach : Nat) : Prop :=
  ∃ p : Phrase text first second, p.Stands ∧ p.start = start ∧ p.reach = reach

/-- `out` is the text from `start` on with `PRIMARY KEY` for everything found, and nothing else
changed. -/
inductive Rewritten (found : Nat → Nat → Prop) : Nat → List Char → List Char → Prop
  | nil {start : Nat} : Rewritten found start [] []
  | phrase {start reach : Nat} {rest out : List Char} (here : found start reach)
      (more : Rewritten found (start + reach) (rest.drop reach) out) :
      Rewritten found start rest ("PRIMARY KEY".toList ++ out)
  | char {start : Nat} {c : Char} {rest out : List Char} (unfound : ∀ reach, ¬found start reach)
      (more : Rewritten found (start + 1) rest out) : Rewritten found start (c :: rest) (c :: out)

/-- What the rewrite is for: a `PRIMARY KEY` is refused, and otherwise every `ORDERING KEY` is
rewritten and nothing else. -/
structure Rewrites [Alphabet] (text : List (Char × Role)) : Prop where
  refused : (∃ p : Phrase text "primary" "key", p.Stands) →
    rewriteOrderingKey (chars text) = .error primaryKeyRefused
  rewritten : (¬∃ p : Phrase text "primary" "key", p.Stands) →
    ∃ out, rewriteOrderingKey (chars text) = .ok out ∧
      Rewritten (StandsAt text "ordering" "key") 0 (chars text) out

/-! ### What disturbs it -/

/-- The quotation that the quotes of a text leave open. -/
def openQuote : Option Char → List Char → Option Char
  | quote, [] => quote
  | none, c :: rest => openQuote (if c = '\'' ∨ c = '"' then some c else none) rest
  | some opened, c :: rest => openQuote (if c = opened then none else some opened) rest

namespace Phrase

variable [Alphabet] {text : List (Char × Role)} {first second : String}

/-- Only whitespace is between the words, what is before them ends in something other than an
opening parenthesis or a comma, and the quotes in it, those of comments included, leave no quotation
open. -/
structure Plain (p : Phrase text first second) : Prop where
  spaced : ∀ m ∈ p.gap, isWhitespace m.1 = true
  follows : ∃ c, (chars p.head).reverse.find? (!isWhitespace ·) = some c ∧ c ≠ '(' ∧ c ≠ ','
  closed : openQuote none (chars p.head) = none

end Phrase

/-- Every phrase that stands in the text is plain, and none that is plain has a part in a quotation
or a comment. -/
structure Undisturbed [Alphabet] (text : List (Char × Role)) : Prop where
  plain : ∀ first ∈ ["primary", "ordering"], ∀ p : Phrase text first "key", p.Stands → p.Plain
  stands : ∀ first ∈ ["primary", "ordering"], ∀ p : Phrase text first "key", p.Plain → p.Stands

/-- A comment starts with one of the characters that open comments. -/
def CommentsOpen (text : List (Char × Role)) : Prop :=
  ∀ before m after, text = before ++ m :: after → m.2 = .comment →
    (∀ d, before.getLast? = some d → d.2 ≠ .comment) →
    m.1 = '-' ∨ m.1 = '/' ∨ m.1 = '#'

/-! ### Letters -/

theorem letter_range {c w : Char} (lower : w.isLower = true) (same : c.toLower = w) :
    (65 ≤ c.toNat ∧ c.toNat ≤ 90) ∨ (97 ≤ c.toNat ∧ c.toNat ≤ 122) := by
  by_cases upper : c.val ≥ 65 ∧ c.val ≤ 90
  · exact .inl ⟨UInt32.le_iff_toNat_le.mp upper.1, UInt32.le_iff_toNat_le.mp upper.2⟩
  · have same' : c.toLower = c := dif_neg upper
    rw [← same, same'] at lower
    have lower' : (decide (c.val ≥ 97) && decide (c.val ≤ 122)) = true := lower
    simp only [Bool.and_eq_true, decide_eq_true_eq] at lower'
    exact .inr ⟨UInt32.le_iff_toNat_le.mp lower'.1, UInt32.le_iff_toNat_le.mp lower'.2⟩

theorem letter_spaceless {c w : Char} (lower : w.isLower = true) (same : c.toLower = w) :
    isWhitespace c = false := by
  have range := letter_range lower same
  by_contra space
  rw [Bool.not_eq_false] at space
  unfold isWhitespace at space
  simp only [Bool.or_eq_true, Bool.and_eq_true, decide_eq_true_eq, beq_iff_eq] at space
  omega

theorem letter_ne {c w d : Char} (lower : w.isLower = true) (same : c.toLower = w)
    (low : d.toNat < 65) : c ≠ d := by
  rintro rfl
  have range := letter_range lower same
  omega

section Phrases

variable [Alphabet]

theorem letter_continues {c w : Char} (lower : w.isLower = true) (same : c.toLower = w) :
    continues c = true := by
  have range := letter_range lower same
  have alphanumeric : c.isAlphanum = true := by
    change ((decide (c.val ≥ 65 ∧ c.val ≤ 90) || (decide (c.val ≥ 97) && decide (c.val ≤ 122))) ||
      c.isDigit) = true
    simp only [Bool.or_eq_true, Bool.and_eq_true, decide_eq_true_eq, ge_iff_le, UInt32.le_iff_toNat_le]
    exact .inl (range.imp id id)
  rw [continues, Alphabet.ascii c (by omega), alphanumeric, Bool.true_or]

def Lower (word : String) : Prop := word.toList ≠ [] ∧ ∀ w ∈ word.toList, w.isLower = true

instance (word : String) : Decidable (Lower word) :=
  @instDecidableAnd _ _ inferInstance (List.decidableBAll _ _)

omit [Alphabet] in
theorem letter_of {run : List (Char × Role)} {word : String}
    (spelled : (chars run).map Char.toLower = word.toList)
    (lower : Lower word) {m : Char × Role} (member : m ∈ run) : ∃ w, w.isLower = true ∧
    m.1.toLower = w :=
  ⟨_, lower.2 _ (by rw [← spelled]; exact List.mem_map_of_mem (List.mem_map_of_mem member)), rfl⟩

omit [Alphabet] in
theorem startsWord_iff {text : List Char} {word : List Char} (lower : ∀ w ∈ word, w.isLower = true) :
    startsWord text word = true ↔ ∃ run rest, text = run ++ rest ∧ run.map Char.toLower = word := by
  induction word generalizing text with
  | nil => exact iff_of_true (by cases text <;> rfl) ⟨[], text, rfl, rfl⟩
  | cons w word ih =>
    have here : w.toLower = w := by
      refine dif_neg fun upper => ?_
      have lower_ : (decide (w.val ≥ 97) && decide (w.val ≤ 122)) = true := lower w List.mem_cons_self
      simp only [Bool.and_eq_true, decide_eq_true_eq] at lower_
      have high := UInt32.le_iff_toNat_le.mp upper.2
      have low := UInt32.le_iff_toNat_le.mp lower_.1
      simp at high low
      omega
    cases text with
    | nil =>
      refine iff_of_false (fun same => by cases same) ?_
      rintro ⟨run, rest, split, spelled⟩
      obtain ⟨rfl, -⟩ := List.append_eq_nil_iff.mp split.symm
      cases spelled
    | cons c text =>
      rw [startsWord, Bool.and_eq_true, ih fun v member => lower v (.tail _ member),
        equalsIgnoreAsciiCase, beq_iff_eq, here]
      constructor
      · rintro ⟨same, run, rest, rfl, rfl⟩
        exact ⟨c :: run, rest, rfl, by rw [List.map_cons, same]⟩
      · rintro ⟨run, rest, split, spelled⟩
        cases run with
        | nil => cases spelled
        | cons d run =>
          obtain ⟨rfl, rfl⟩ := List.cons.inj split
          obtain ⟨same, spelled⟩ := List.cons.inj spelled
          exact ⟨same, run, rest, rfl, spelled⟩

/-! ### Phrases -/

namespace Phrase

variable {text : List (Char × Role)} {first second : String}

theorem run_length (p : Phrase text first second) : p.run.length = first.toList.length := by
  rw [← p.first_, List.length_map, chars_length]

theorem run'_length (p : Phrase text first second) : p.run'.length = second.toList.length := by
  rw [← p.second_, List.length_map, chars_length]

theorem reach_eq (p : Phrase text first second) :
    p.reach = p.run.length + (p.gap.length + p.run'.length) := by
  rw [reach, List.length_append, List.length_append]

theorem head_eq (p : Phrase text first second) : p.head = text.take p.start :=
  ((congrArg (List.take p.head.length) p.split).trans List.take_left).symm

theorem rest_eq (p : Phrase text first second) : p.run ++ (p.gap ++ (p.run' ++ p.tail)) =
      text.drop p.start :=
  ((congrArg (List.drop p.head.length) p.split).trans List.drop_left).symm

/-- Phrases of the same words that span the same part of the text are the same. -/
theorem ext_place {p q : Phrase text first second} (start_ : p.start = q.start)
    (reach_ : p.reach = q.reach) : p = q := by
  have heads : p.head = q.head := by rw [p.head_eq, q.head_eq, start_]
  have rests := p.rest_eq.trans ((congrArg text.drop start_).trans q.rest_eq.symm)
  rw [p.reach_eq, q.reach_eq, p.run_length, q.run_length, p.run'_length, q.run'_length] at reach_
  obtain ⟨runs, rests⟩ := List.append_inj rests (p.run_length.trans q.run_length.symm)
  obtain ⟨gaps, rests⟩ := List.append_inj rests (by omega)
  obtain ⟨runs', tails⟩ := List.append_inj rests (p.run'_length.trans q.run'_length.symm)
  cases p
  cases q
  simp only at heads runs gaps runs' tails
  subst heads runs gaps runs' tails
  rfl

theorem at_start (q : Phrase text first second) (lower : Lower first) :
    ∃ m, text[q.start]? = some m ∧ m ∈ q.run ∧ some m.1.toLower = first.toList.head? := by
  have filled : q.run ≠ [] := fun none_ => lower.1 (by rw [← q.first_, none_]; rfl)
  obtain ⟨m, run, run_⟩ := List.exists_cons_of_ne_nil filled
  refine ⟨m, ?_, by rw [run_]; exact List.mem_cons_self, by rw [← q.first_, run_]; rfl⟩
  rw [← Nat.add_zero q.start, ← List.getElem?_drop, ← q.rest_eq, run_]
  rfl

theorem before_start (q : Phrase text first second) {n : Nat} (start_ : q.start = n + 1) :
    ∃ m, text[n]? = some m ∧ continues m.1 = false := by
  have filled : q.head ≠ [] := fun none_ => by
    rw [start, none_] at start_
    cases start_
  have last := List.getLast?_eq_some_getLast filled
  refine ⟨_, ?_, q.before _ last⟩
  rw [start] at start_
  have there : text[n]? = q.head[n]? :=
    (congrArg (fun whole : List (Char × Role) => whole[n]?) q.split).trans
      (List.getElem?_append_left (by omega))
  rw [← last, List.getLast?_eq_getElem?, there, show q.head.length - 1 = n by omega]

theorem within (p : Phrase text first second) {i : Nat} (inside : i < p.reach) : ∃ m,
    text[p.start + i]? = some m ∧
    ((i < p.run.length ∧ m ∈ p.run) ∨ (p.run.length ≤ i ∧ i < p.run.length + p.gap.length ∧ m ∈ p.gap) ∨
      (p.run.length + p.gap.length ≤ i ∧ m ∈ p.run' ∧
        (i = p.run.length + p.gap.length → some m.1.toLower = second.toList.head?))) := by
  rw [p.reach_eq] at inside
  rw [← List.getElem?_drop, ← p.rest_eq]
  by_cases one : i < p.run.length
  · rw [List.getElem?_append_left one]
    exact ⟨p.run[i], List.getElem?_eq_getElem one, .inl ⟨one, List.getElem_mem one⟩⟩
  rw [List.getElem?_append_right (by omega)]
  by_cases two : i < p.run.length + p.gap.length
  · have there : i - p.run.length < p.gap.length := by omega
    rw [List.getElem?_append_left there]
    exact ⟨_, List.getElem?_eq_getElem there, .inr (.inl ⟨by omega, two, List.getElem_mem there⟩)⟩
  · have there : i - p.run.length - p.gap.length < p.run'.length := by omega
    rw [List.getElem?_append_right (by omega), List.getElem?_append_left there]
    refine ⟨_, List.getElem?_eq_getElem there,
      .inr (.inr ⟨by omega, List.getElem_mem there, fun same => ?_⟩)⟩
    have zero : i - p.run.length - p.gap.length = 0 := by omega
    simp only [zero]
    obtain ⟨m, run, run_⟩ :=
      List.exists_cons_of_ne_nil (List.ne_nil_of_length_pos (Nat.lt_of_le_of_lt (Nat.zero_le _) there))
    simp only [← p.second_, run_, List.getElem_cons_zero]
    rfl

/-- Where a phrase is, no other begins, if its gap has no letter that could begin one. -/
theorem disjoint {first' : String} (p : Phrase text first "key") (q : Phrase text first' "key")
    (lower : Lower first)
    (lower' : Lower first') (keyless : first'.toList.head? ≠ some 'k') (gap : ∀ m ∈ p.gap, m ∉ q.run)
    (after : p.start < q.start) : p.start + p.reach ≤ q.start := by
  by_contra inside
  obtain ⟨i, place⟩ := Nat.exists_eq_add_of_lt after
  obtain ⟨m, here, member, head⟩ := q.at_start lower'
  obtain ⟨d, there, wordless⟩ := q.before_start (n := p.start + i) place
  obtain ⟨m', here', where_⟩ := p.within (i := i + 1) (by omega)
  obtain ⟨d', there', where'⟩ := p.within (i := i) (by omega)
  obtain rfl := Option.some.inj (there.symm.trans there')
  rw [place] at here
  obtain rfl := Option.some.inj (here.symm.trans here')
  -- The character before would be a letter of the phrase.
  have lettered {word : String} {run : List (Char × Role)}
    (spelled : (chars run).map Char.toLower = word.toList)
      (lower : Lower word) (member : d ∈ run) : False := by
    obtain ⟨w, lower, same⟩ := letter_of spelled lower member
    rw [letter_continues lower same] at wordless
    cases wordless
  rcases where' with ⟨-, member'⟩ | ⟨low, high, -⟩ | ⟨-, member', -⟩
  · exact lettered p.first_ lower member'
  · rcases where_ with ⟨less, -⟩ | ⟨-, -, within⟩ | ⟨more, -, key⟩
    · omega
    · exact gap m within member
    · rw [key (by omega)] at head
      exact keyless head.symm
  · exact lettered p.second_ (by decide) member'

/-- The first comment in the gap of a phrase that stands is opened there. -/
theorem gap_opened (opened : CommentsOpen text) (p : Phrase text first second) (lower : Lower first)
    (stands : p.Stands)
    {front rest : List (Char × Role)} (gap : p.gap = front ++ rest) {x : Char × Role}
    (member : x ∈ front)
    (comment : (x.2 == .comment) = true) : ∃ y ∈ front, y.1 = '-' ∨ y.1 = '/' ∨ y.1 = '#' := by
  obtain ⟨y, found⟩ : ∃ y, front.find? (·.2 == .comment) = some y :=
    Option.isSome_iff_exists.mp (List.find?_isSome.mpr ⟨x, member, comment⟩)
  obtain ⟨comment', pre, post, rfl, none_⟩ := List.find?_eq_some_iff_append.mp found
  have whole : text = (p.head ++ (p.run ++ pre)) ++ y :: (post ++ (rest ++ (p.run' ++ p.tail))) := by
    refine p.split.trans ?_
    rw [gap]
    simp only [List.append_assoc, List.cons_append]
  have filled : p.run ≠ [] := fun none_ => lower.1 (by rw [← p.first_, none_]; rfl)
  have before (d : Char × Role) (last : (p.head ++ (p.run ++ pre)).getLast? = some d) :
      d.2 ≠ .comment := by
    rw [List.getLast?_append, List.getLast?_append] at last
    cases ends : pre.getLast? with
    | some z =>
      rw [ends] at last
      obtain rfl := Option.some.inj last
      have uncommented := none_ _ (List.mem_of_getLast? ends)
      intro comment'
      rw [comment'] at uncommented
      cases uncommented
    | none =>
      rw [ends, List.getLast?_eq_some_getLast filled] at last
      obtain rfl := Option.some.inj last
      rw [stands.run _ (List.getLast_mem _)]
      decide
  exact ⟨y, List.mem_append_right _ List.mem_cons_self, opened _ y _ whole (eq_of_beq comment') before⟩

/-- A phrase that stands and a plain one that begin together span the same. -/
theorem reach_same (opened : CommentsOpen text) (p q : Phrase text first "key")
    (lower : Lower first) (stands : p.Stands)
    (plain : q.Plain) (together : p.start = q.start) : p.reach = q.reach := by
  have rests := p.rest_eq.trans ((congrArg text.drop together).trans q.rest_eq.symm)
  obtain ⟨-, rests⟩ := List.append_inj rests (p.run_length.trans q.run_length.symm)
  have key {run : List (Char × Role)} {a : List (Char × Role)} {x : Char × Role}
    {more : List (Char × Role)}
      (spelled : (chars run).map Char.toLower = "key".toList) (split : run ++ more = x :: a) :
      ∃ w, w.isLower = true ∧ x.1.toLower = w := by
    cases run with
    | nil => cases spelled
    | cons y run =>
      obtain ⟨rfl, -⟩ := List.cons.inj split
      exact letter_of spelled (by decide) List.mem_cons_self
  have gaps : p.gap = q.gap := by
    rcases List.append_eq_append_iff.mp rests with ⟨a, gap, rest⟩ | ⟨a, gap, rest⟩
    · cases a with
      | nil => rw [gap, List.append_nil]
      | cons x a =>
        obtain ⟨w, lower, same⟩ := key p.second_ rest
        have space := plain.spaced x (by rw [gap]; exact List.mem_append_right _ List.mem_cons_self)
        rw [letter_spaceless lower same] at space
        cases space
    · cases a with
      | nil => rw [gap, List.append_nil]
      | cons x a =>
        -- The letter would be in a comment, which nothing before it opens.
        obtain ⟨w, lower', same⟩ := key q.second_ rest
        have inside := stands.gap x (by rw [gap]; exact List.mem_append_right _ List.mem_cons_self)
        rw [isGap, letter_spaceless lower' same, Bool.and_false, Bool.or_false] at inside
        rw [List.append_cons] at gap
        obtain ⟨y, member, opens⟩ :=
          p.gap_opened opened lower stands gap
          (List.mem_append_right _ (List.mem_singleton.mpr rfl)) inside
        rcases List.mem_append.mp member with early | late
        · have space := plain.spaced y early
          rcases opens with opens | opens | opens <;> rw [opens] at space <;>
            exact absurd space (by decide)
        · obtain rfl := List.mem_singleton.mp late
          rcases opens with opens | opens | opens <;>
            exact absurd opens (letter_ne lower' same (by decide))
  rw [p.reach_eq, q.reach_eq, p.run_length, q.run_length, p.run'_length, q.run'_length, gaps]

end Phrase

/-! ### What the rewrite finds -/

def PlainAt (text : List (Char × Role)) (first second : String) (start reach : Nat) : Prop :=
  ∃ p : Phrase text first second, p.Plain ∧ p.start = start ∧ p.reach = reach

omit [Alphabet] in
theorem chars_split {text : List (Char × Role)} {front back : List Char}
    (split : chars text = front ++ back) :
    ∃ head tail, text = head ++ tail ∧ chars head = front ∧ chars tail = back :=
  List.map_eq_append_iff.mp split

omit [Alphabet] in
theorem getLast_chars {head : List (Char × Role)} {p : Char → Bool} :
    ((chars head).reverse.head?.any p) = false ↔ ∀ m, head.getLast? = some m → p m.1 = false := by
  rw [List.head?_reverse, chars, List.getLast?_map]
  cases head.getLast? <;> simp

omit [Alphabet] in
theorem head_chars {tail : List (Char × Role)} {p : Char → Bool} :
    ((chars tail).head?.any p) = false ↔ ∀ m, tail.head? = some m → p m.1 = false := by
  rw [chars, List.head?_map]
  cases tail.head? <;> simp

omit [Alphabet] in
theorem takeWhile_spaces {spaces rest : List Char} (all : ∀ c ∈ spaces, isWhitespace c = true)
    (ends : ∀ c, rest.head? = some c → isWhitespace c = false) :
    (spaces ++ rest).takeWhile isWhitespace = spaces := by
  rw [List.takeWhile_append_of_pos all]
  cases rest with
  | nil => exact List.append_nil spaces
  | cons c rest => rw [List.takeWhile_cons, ends c rfl, if_neg Bool.false_ne_true, List.append_nil]

omit [Alphabet] in
theorem key_ends {run' tail : List Char} (spelled : run'.map Char.toLower = "key".toList) (c : Char)
    (first : (run' ++ tail).head? = some c) : isWhitespace c = false := by
  cases run' with
  | nil => cases spelled
  | cons d run' =>
    obtain rfl := Option.some.inj first
    exact letter_spaceless (w := 'k') (by decide) (List.cons.inj spelled).1

/-- What the rewrite looks for. -/
theorem phraseAt_split {before rest first : List Char} (lower : ∀ w ∈ first, w.isLower = true)
    {reach : Nat} :
    phraseAt before rest first "key".toList = some reach ↔
      ∃ run spaces run' tail, rest = run ++ (spaces ++ (run' ++ tail)) ∧ run.map Char.toLower = first ∧
        run'.map Char.toLower = "key".toList ∧ spaces ≠ [] ∧ (∀ c ∈ spaces, isWhitespace c = true) ∧
        before.head?.any continues = false ∧ tail.head?.any continues = false ∧
        (∃ c, before.find? (!isWhitespace ·) = some c ∧ c ≠ '(' ∧ c ≠ ',') ∧
        reach = (run ++ (spaces ++ run')).length := by
  have key : ∀ w ∈ "key".toList, w.isLower = true := (by decide : Lower "key").2
  have position : (before.find? (!isWhitespace ·)).any (fun c => c != '(' && c != ',') = true ↔
      ∃ c, before.find? (!isWhitespace ·) = some c ∧ c ≠ '(' ∧ c ≠ ',' := by
    cases before.find? (!isWhitespace ·) <;> simp
  -- The whitespace is as long as the code measures it.
  have measured {run spaces run' tail : List Char} (spelled : run.map Char.toLower = first)
    (spelled' : run'.map Char.toLower = "key".toList)
      (all : ∀ c ∈ spaces, isWhitespace c = true) :
      (((run ++ (spaces ++ (run' ++ tail))).drop first.length).takeWhile isWhitespace).length =
        spaces.length := by
    rw [← spelled, List.length_map, List.drop_left, takeWhile_spaces all (key_ends spelled')]
  unfold phraseAt
  simp only
  constructor
  · intro found
    split at found
    · next holds =>
      simp only [Bool.and_eq_true, bne_iff_ne, Bool.not_eq_true'] at holds
      obtain ⟨⟨⟨⟨⟨starts, spaced⟩, starts'⟩, left⟩, right⟩, follows⟩ := holds
      obtain ⟨run, more, rfl, spelled⟩ := (startsWord_iff lower).mp starts
      obtain ⟨spaces, more, rfl, all⟩ : ∃ spaces rest, more = spaces ++ rest ∧
          more.takeWhile isWhitespace = spaces :=
        ⟨_, _, (List.takeWhile_append_dropWhile ..).symm, rfl⟩
      have length : run.length = first.length := by rw [← spelled, List.length_map]
      rw [← length, List.drop_left, all] at found right starts' spaced
      rw [← List.drop_drop, List.drop_left, List.drop_left] at starts'
      obtain ⟨run', tail, rfl, spelled'⟩ := (startsWord_iff key).mp starts'
      have length' : "key".toList.length = run'.length := by rw [← spelled', List.length_map]
      refine ⟨run, spaces, run', tail, rfl, spelled, spelled', ?_, ?_, left, ?_,
        position.mp follows, ?_⟩
      · rintro rfl
        exact spaced rfl
      · intro c member
        rw [← all] at member
        exact List.mem_takeWhile_imp member
      · rw [length', ← List.drop_drop, ← List.drop_drop, List.drop_left, List.drop_left,
          List.drop_left] at right
        exact right
      · rw [← Option.some.inj found, length']
        simp only [List.length_append]
        omega
    · cases found
  · rintro ⟨run, spaces, run', tail, rfl, spelled, spelled', apart, all, left, right, follows, rfl⟩
    have length : run.length = first.length := by rw [← spelled, List.length_map]
    have length' : "key".toList.length = run'.length := by rw [← spelled', List.length_map]
    have past : (run ++ (spaces ++ (run' ++ tail))).drop (first.length + spaces.length) =
        run' ++ tail := by
      rw [← length, ← List.drop_drop, List.drop_left, List.drop_left]
    have past' : (run ++ (spaces ++ (run' ++ tail))).drop
        (first.length + spaces.length + run'.length) = tail := by
      rw [← List.drop_drop, past, List.drop_left]
    rw [measured spelled spelled' all, past, length', past',
      (startsWord_iff lower).mpr ⟨run, _, rfl, spelled⟩,
      (startsWord_iff key).mpr ⟨run', tail, rfl, spelled'⟩, left, right, position.mpr follows]
    have some_ : (spaces.length != 0) = true := by
      rw [bne_iff_ne]
      exact fun none_ => apart (List.length_eq_zero_iff.mp none_)
    rw [some_]
    simp only [Bool.not_false, Bool.and_self, if_true, List.length_append]
    congr 1
    omega

/-- The phrase that the rewrite looks for is a plain one. -/
theorem phraseAt_iff {text : List (Char × Role)} {before rest : List Char}
    (split : chars text = before.reverse ++ rest)
    (closed : openQuote none before.reverse = none) {first : String} (lower : Lower first)
    {reach : Nat} :
    phraseAt before rest first.toList "key".toList = some reach ↔
    PlainAt text first "key" before.length reach := by
  rw [phraseAt_split lower.2]
  constructor
  · rintro ⟨run, spaces, run', tail, rfl, spelled, spelled', apart, all, left, right, follows, rfl⟩
    obtain ⟨head, rest, rfl, head_, rest_⟩ := chars_split split
    obtain ⟨run, past, rfl, rfl, past_⟩ := chars_split rest_
    obtain ⟨gap, left_, rfl, rfl, left'⟩ := chars_split past_
    obtain ⟨run', tail, rfl, rfl, rfl⟩ := chars_split left'
    obtain rfl : before = (chars head).reverse := by rw [head_, List.reverse_reverse]
    rw [List.reverse_reverse] at closed
    refine ⟨⟨head, run, gap, run', tail, rfl, spelled, spelled', ?_, getLast_chars.mp left,
      head_chars.mp right⟩,
      ⟨fun m member => all m.1 (List.mem_map_of_mem member), follows, closed⟩, ?_, ?_⟩
    · rintro rfl
      exact apart rfl
    · rw [Phrase.start, List.length_reverse, chars_length]
    · simp only [Phrase.reach, List.length_append, chars_length]
  · rintro ⟨p, plain, start, rfl⟩
    have whole := congrArg chars p.split
    simp only [chars_append] at whole
    rw [split] at whole
    obtain ⟨head, rfl⟩ :=
      List.append_inj whole (by rw [List.length_reverse, chars_length, ← start]; rfl)
    obtain rfl : before = (chars p.head).reverse := by rw [← head, List.reverse_reverse]
    refine ⟨_, _, _, _, rfl, p.first_, p.second_, fun none_ => p.apart ?_, fun c member => ?_,
      getLast_chars.mpr p.before,
      head_chars.mpr p.after, plain.follows, ?_⟩
    · exact List.map_eq_nil_iff.mp none_
    · obtain ⟨m, inside, rfl⟩ := List.mem_map.mp member
      exact plain.spaced m inside
    · simp only [Phrase.reach, List.length_append, chars_length]

theorem rewriteFrom_passing (before : List Char) (quote : Option Char) (passing : Nat)
    (rest : List Char) :
    rewriteFrom before quote passing rest = rewriteFrom
      ((rest.take passing).reverse ++ before) quote 0 (rest.drop passing) := by
  induction passing generalizing before rest with
  | zero => rfl
  | succ passing ih =>
    cases rest with
    | nil => rfl
    | cons c rest =>
      rw [rewriteFrom, ih, List.take_succ_cons, List.reverse_cons, List.append_assoc,
        List.drop_succ_cons]
      rfl

omit [Alphabet] in
theorem openQuote_append (quote : Option Char) (text more : List Char) :
    openQuote quote (text ++ more) = openQuote (openQuote quote text) more := by
  induction text generalizing quote with
  | nil => cases quote <;> rfl
  | cons c text ih => cases quote <;> exact ih _

omit [Alphabet] in
theorem openQuote_quoteless {text : List Char} (quoteless : ∀ c ∈ text, c ≠ '\'' ∧ c ≠ '"') :
    openQuote none text = none := by
  induction text with
  | nil => rfl
  | cons c text ih =>
    obtain ⟨tick, double⟩ := quoteless c List.mem_cons_self
    rw [openQuote, if_neg (not_or.mpr ⟨tick, double⟩), ih fun d member => quoteless d (.tail _ member)]

section Rewrite

variable {text : List (Char × Role)} {before rest : List Char} {first second : String}
  {c : Char} {reach : Nat}

theorem Phrase.reach_pos (p : Phrase text first second) : 0 < p.reach := by
  have some_ := List.length_pos_iff.mpr p.apart
  rw [p.reach_eq]
  omega

theorem Phrase.halves (p : Phrase text first second) (split : chars text = before.reverse ++ rest)
    (start : p.start = before.length) :
    before.reverse = chars p.head ∧ rest = chars (p.run ++ (p.gap ++ p.run')) ++ chars p.tail := by
  have whole := congrArg chars p.split
  rw [chars_append, split] at whole
  obtain ⟨head, rest_⟩ :=
    List.append_inj whole (by rw [List.length_reverse, chars_length, ← start]; rfl)
  refine ⟨head, ?_⟩
  rw [rest_, ← chars_append, List.append_assoc, List.append_assoc]

/-- A plain phrase is where no quotation is open. -/
theorem PlainAt.closed (split : chars text = before.reverse ++ rest)
    (found : PlainAt text first "key" before.length reach) :
    openQuote none before.reverse = none := by
  obtain ⟨p, plain, start, -⟩ := found
  rw [(p.halves split start).1]
  exact plain.closed

theorem phrase_letter (split : chars text = before.reverse ++ c :: rest)
    (p : Phrase text first "key") (lower : Lower first)
    (start : p.start = before.length) : some c.toLower = first.toList.head? := by
  obtain ⟨m, here, -, letter⟩ := p.at_start lower
  have there : (chars text)[before.length]? = some c := by
    rw [split, ← List.length_reverse, List.getElem?_append_right (Nat.le_refl _), Nat.sub_self]
    rfl
  rw [chars, List.getElem?_map, ← start, here] at there
  obtain rfl := Option.some.inj there
  exact letter

/-- The characters of a plain phrase neither quote nor open comments. -/
theorem Phrase.Plain.unquoted {p : Phrase text first "key"} (plain : p.Plain) (lower : Lower first) :
    ∀ c ∈ chars (p.run ++ (p.gap ++ p.run')), Reading.Plain c := by
  intro c member
  obtain ⟨m, inside, rfl⟩ := List.mem_map.mp member
  have lettered {w : Char} (lower : w.isLower = true) (same : m.1.toLower = w) : Reading.Plain m.1 :=
    ⟨letter_ne lower same (by decide), letter_ne lower same (by decide),
      letter_ne lower same (by decide),
      letter_ne lower same (by decide)⟩
  rcases List.mem_append.mp inside with run | rest
  · obtain ⟨w, lower, same⟩ := letter_of p.first_ lower run
    exact lettered lower same
  · rcases List.mem_append.mp rest with gap | run'
    · exact plain_of_whitespace (plain.spaced m gap)
    · obtain ⟨w, lower, same⟩ := letter_of p.second_ (by decide) run'
      exact lettered lower same

theorem Phrase.drop_reach (p : Phrase text first second) (split : chars text = before.reverse ++ rest)
    (start : p.start = before.length) : rest.drop p.reach = chars p.tail := by
  rw [(p.halves split start).2, Phrase.reach, ← chars_length, List.drop_left]

/-- The text through a phrase, its last character first. -/
def Phrase.through (p : Phrase text first second) : List Char :=
  (chars (p.head ++ (p.run ++ (p.gap ++ p.run')))).reverse

theorem Phrase.through_split (p : Phrase text first second) :
    chars text = p.through.reverse ++ chars p.tail := by
  rw [Phrase.through, List.reverse_reverse, ← chars_append]
  refine (congrArg chars p.split).trans (congrArg chars ?_)
  simp only [List.append_assoc]

theorem Phrase.through_length (p : Phrase text first second) :
    p.through.length = p.start + p.reach := by
  rw [Phrase.through, List.length_reverse, chars_length, List.length_append]
  rfl

theorem Phrase.Plain.through_closed {p : Phrase text first "key"} (plain : p.Plain)
    (lower : Lower first) : openQuote none p.through.reverse = none := by
  rw [Phrase.through, List.reverse_reverse, chars_append, openQuote_append, plain.closed]
  exact openQuote_quoteless fun c member =>
    ⟨(plain.unquoted lower c member).1, (plain.unquoted lower c member).2.1⟩

/-- Past a phrase the rewrite reads on at its end. -/
theorem rewriteFrom_past (p : Phrase text first second)
    (split : chars text = before.reverse ++ c :: rest) (start : p.start = before.length) :
    rewriteFrom (c :: before) none (p.reach - 1) rest =
      rewriteFrom p.through none 0 (chars p.tail) := by
  obtain ⟨head, rest_⟩ := p.halves split start
  obtain ⟨k, k_⟩ := Nat.exists_eq_succ_of_ne_zero p.reach_pos.ne'
  have past : rest.drop k = chars p.tail := by
    rw [← p.drop_reach split start, k_, List.drop_succ_cons]
  have taken : c :: rest.take k = chars (p.run ++ (p.gap ++ p.run')) := by
    rw [← List.take_succ_cons, ← Nat.succ_eq_add_one, ← k_, rest_, Phrase.reach, ← chars_length,
      List.take_left]
  have body : (rest.take k).reverse ++ (c :: before) = p.through := by
    rw [Phrase.through, chars_append, ← head, ← taken, List.reverse_append, List.reverse_reverse,
      List.reverse_cons, List.append_assoc]
    rfl
  rw [k_, Nat.succ_sub_one, rewriteFrom_passing, body, past]

/-- No phrase begins within a plain one. -/
theorem Phrase.Plain.disjoint {p : Phrase text first "key"} {first' : String}
    {q : Phrase text first' "key"} (plain : p.Plain) (lower : Lower first) (lower' : Lower first')
    (keyless : first'.toList.head? ≠ some 'k') (after : p.start < q.start) :
    p.start + p.reach ≤ q.start := by
  refine p.disjoint q lower lower' keyless (fun m gap run => ?_) after
  obtain ⟨w, lower, same⟩ := letter_of q.first_ lower' run
  have space := plain.spaced m gap
  rw [letter_spaceless lower same] at space
  cases space

/-- What the rewrite makes of the text past some part. -/
def Makes (text : List (Char × Role)) (start : Nat) (rest : List Char)
    (result : Except QueryError (List Char)) : Prop :=
  ((∃ there reach, start ≤ there ∧ PlainAt text "primary" "key" there reach) ∧
    result = .error primaryKeyRefused) ∨
    ((¬∃ there reach, start ≤ there ∧ PlainAt text "primary" "key" there reach) ∧
      ∃ out, result = .ok out ∧ Rewritten (PlainAt text "ordering" "key") start rest out)

theorem Makes.char {start : Nat} {result : Except QueryError (List Char)}
    (makes : Makes text (start + 1) rest result)
    (unfound : ∀ reach, ¬PlainAt text "primary" "key" start reach)
    (unfound' : ∀ reach, ¬PlainAt text "ordering" "key" start reach) :
    Makes text start (c :: rest) ((c :: ·) <$> result) := by
  have same : (∃ there reach, start ≤ there ∧ PlainAt text "primary" "key" there reach) ↔
      ∃ there reach, start + 1 ≤ there ∧ PlainAt text "primary" "key" there reach := by
    constructor
    · rintro ⟨there, reach, after, found⟩
      refine ⟨there, reach, Nat.lt_of_le_of_ne after ?_, found⟩
      rintro rfl
      exact unfound reach found
    · rintro ⟨there, reach, after, found⟩
      exact ⟨there, reach, Nat.le_of_succ_le after, found⟩
  unfold Makes
  rw [same]
  rcases makes with ⟨found, rfl⟩ | ⟨none_, out, rfl, rewritten⟩
  · exact .inl ⟨found, rfl⟩
  · exact .inr ⟨none_, c :: out, rfl, .char unfound' rewritten⟩

theorem rewriteFrom_code (before rest : List Char) : rewriteFrom before none 0 (c :: rest) =
    if c = '\'' ∨ c = '"' then (c :: ·) <$> rewriteFrom (c :: before) (some c) 0 rest
    else if (phraseAt before (c :: rest) "primary".toList "key".toList).isSome
      then .error primaryKeyRefused
    else match phraseAt before (c :: rest) "ordering".toList "key".toList with
      | some reach => ("PRIMARY KEY".toList ++ ·) <$> rewriteFrom (c :: before) none (reach - 1) rest
      | none => (c :: ·) <$> rewriteFrom (c :: before) none 0 rest := rfl

/-- Past a phrase the rewrite goes on as it would there. -/
theorem Makes.phrase (p : Phrase text "ordering" "key") (plain : p.Plain)
    {result : Except QueryError (List Char)}
    (makes : Makes text (p.start + p.reach) (rest.drop p.reach) result)
    (unfound : ∀ reach, ¬PlainAt text "primary" "key" p.start reach) :
    Makes text p.start rest (("PRIMARY KEY".toList ++ ·) <$> result) := by
  have same : (∃ there reach, p.start ≤ there ∧ PlainAt text "primary" "key" there reach) ↔
      ∃ there reach, p.start + p.reach ≤ there ∧ PlainAt text "primary" "key" there reach := by
    constructor
    · rintro ⟨there, reach, after, q, plain', rfl, rfl⟩
      have later : p.start < q.start :=
        Nat.lt_of_le_of_ne after fun same => unfound q.reach ⟨q, plain', same.symm, rfl⟩
      exact ⟨_, _, plain.disjoint (by decide) (by decide) (by decide) later, q, plain', rfl, rfl⟩
    · rintro ⟨there, reach, after, found⟩
      exact ⟨there, reach, Nat.le_of_add_right_le after, found⟩
  unfold Makes
  rw [same]
  rcases makes with ⟨found, rfl⟩ | ⟨none_, out, rfl, rewritten⟩
  · exact .inl ⟨found, rfl⟩
  · exact .inr ⟨none_, _, rfl, .phrase ⟨p, plain, rfl, rfl⟩ rewritten⟩

theorem rewriteFrom_makes (split : chars text = before.reverse ++ rest) :
    Makes text before.length rest (rewriteFrom before (openQuote none before.reverse) 0 rest) := by
  induction length : rest.length using Nat.strong_induction_on generalizing before rest with
  | _ n ih =>
    subst length
    cases rest with
    | nil =>
      refine .inr ⟨?_, [], rfl, .nil⟩
      rintro ⟨there, reach, after, p, -, rfl, -⟩
      obtain ⟨m, here, -⟩ := p.at_start (by decide)
      have inside := (List.getElem?_eq_some_iff.mp here).1
      have whole := congrArg List.length split
      rw [chars_length, List.append_nil, List.length_reverse] at whole
      omega
    | cons c rest =>
      have split' : chars text = (c :: before).reverse ++ rest := by
        rw [split, List.reverse_cons, List.append_assoc]
        rfl
      have next := ih rest.length (Nat.lt_succ_self _) split' rfl
      rw [List.reverse_cons, openQuote_append] at next
      cases quote : openQuote none before.reverse with
      | some opened =>
        have unfound (first : String) (reach : Nat) : ¬PlainAt text first "key" before.length
            reach := fun found => by
          rw [found.closed split] at quote
          cases quote
        rw [quote] at next
        exact next.char (unfound _) (unfound _)
      | none =>
        rw [quote] at next
        by_cases opens : c = '\'' ∨ c = '"'
        · have unfound (first : String) (letter : some c.toLower ≠ first.toList.head?)
            (lower : Lower first) (reach : Nat) :
              ¬PlainAt text first "key" before.length reach := by
            rintro ⟨p, -, start, -⟩
            exact letter (phrase_letter split p lower start)
          rw [openQuote, if_pos opens, openQuote] at next
          rw [rewriteFrom_code before rest, if_pos opens]
          rcases opens with rfl | rfl
          · exact next.char (unfound _ (by decide) (by decide)) (unfound _ (by decide) (by decide))
          · exact next.char (unfound _ (by decide) (by decide)) (unfound _ (by decide) (by decide))
        rw [openQuote, if_neg opens, openQuote] at next
        rw [rewriteFrom_code before rest, if_neg opens]
        have primary (reach : Nat) :=
          @phraseAt_iff _ text before (c :: rest) split quote "primary" (by decide) reach
        have ordering (reach : Nat) :=
          @phraseAt_iff _ text before (c :: rest) split quote "ordering" (by decide) reach
        cases found : phraseAt before (c :: rest) "primary".toList "key".toList with
        | some reach =>
            exact .inl ⟨⟨before.length, reach, Nat.le_refl _, (primary reach).mp found⟩, rfl⟩
        | none =>
          have unfound (reach : Nat) : ¬PlainAt text "primary" "key" before.length reach :=
              fun plain => by
            rw [(primary reach).mpr plain] at found
            cases found
          cases found' : phraseAt before (c :: rest) "ordering".toList "key".toList with
          | none =>
            refine next.char unfound fun reach plain => ?_
            rw [(ordering reach).mpr plain] at found'
            cases found'
          | some reach =>
            obtain ⟨p, plain, start, rfl⟩ := (ordering reach).mp found'
            simp only [Option.isSome_none, Bool.false_eq_true, if_false]
            have shorter : (chars p.tail).length < (c :: rest).length := by
              have some_ := p.reach_pos
              rw [← p.drop_reach split start, List.length_drop, List.length_cons]
              omega
            have later := ih _ shorter p.through_split rfl
            rw [plain.through_closed (by decide), p.through_length] at later
            rw [rewriteFrom_past p split start, ← start]
            refine Makes.phrase p plain ?_ fun reach => start ▸ unfound reach
            rw [p.drop_reach split start]
            exact later

/-! ### One text, one set of phrases -/

omit [Alphabet] in
theorem Rewritten.inv {found : Nat → Nat → Prop} {start : Nat} {rest out : List Char}
    (rewritten : Rewritten found start rest out) :
    rest = [] ∨ (∃ reach out', found start reach ∧ out = "PRIMARY KEY".toList ++ out' ∧
        Rewritten found (start + reach) (rest.drop reach) out') ∨
      ∃ c rest' out', rest = c :: rest' ∧ out = c :: out' ∧ (∀ reach, ¬found start reach) ∧
        Rewritten found (start + 1) rest' out' := by
  cases rewritten with
  | nil => exact .inl rfl
  | phrase here more => exact .inr (.inl ⟨_, _, here, rfl, more⟩)
  | char unfound more => exact .inr (.inr ⟨_, _, _, rfl, rfl, unfound, more⟩)

theorem Phrase.fits (p : Phrase text first second) : p.start + p.reach ≤ text.length := by
  have whole := congrArg List.length p.split
  simp only [List.length_append] at whole
  rw [Phrase.start, p.reach_eq]
  omega

/-- No phrase that stands begins within another. -/
theorem Phrase.Stands.disjoint {p q : Phrase text "ordering" "key"} (stands : p.Stands)
    (stands' : q.Stands)
    (after : p.start < q.start) : p.start + p.reach ≤ q.start := by
  refine p.disjoint q (by decide) (by decide) (by decide) (fun m gap run => ?_) after
  obtain ⟨w, lower, same⟩ := letter_of q.first_ (by decide) run
  have open_ := stands.gap m gap
  rw [isGap, stands'.run m run, letter_spaceless lower same] at open_
  cases open_

/-- No other character begins what a phrase is rewritten to. -/
theorem phrase_unlike {front : List Char} (split : chars text = front.reverse ++ c :: rest)
    (p : Phrase text "ordering" "key")
    (start : p.start = front.length) {out out' : List Char}
    (same : "PRIMARY KEY".toList ++ out = c :: out') : False := by
  obtain ⟨rfl, -⟩ := List.cons.inj same
  exact absurd (phrase_letter split p (by decide) start) (by decide)

/-- Where a phrase that stands and a plain one begin together, none begins up to their end. -/
theorem together_same (opened : CommentsOpen text) {p q : Phrase text "ordering" "key"}
    (stands : p.Stands) (plain : q.Plain) (together : p.start = q.start) {there reach : Nat}
    (after : p.start ≤ there) (near : there < p.start + p.reach) :
    StandsAt text "ordering" "key" there reach ↔ PlainAt text "ordering" "key" there reach := by
  rcases Nat.eq_or_lt_of_le after with rfl | later
  · constructor
    · rintro ⟨p', stands', start, rfl⟩
      exact ⟨q, plain, together.symm,
        (p'.reach_same opened q (by decide) stands' plain (start.trans together)).symm⟩
    · rintro ⟨q', plain', start, rfl⟩
      exact ⟨p, stands, rfl, p.reach_same opened q' (by decide) stands plain' start.symm⟩
  · have reach_ := p.reach_same opened q (by decide) stands plain together
    refine iff_of_false ?_ ?_
    · rintro ⟨p', stands', rfl, -⟩
      have apart := stands.disjoint stands' later
      omega
    · rintro ⟨q', -, rfl, -⟩
      have apart := plain.disjoint (by decide) (by decide) (by decide) (together ▸ later)
      omega

/-- A text with its phrases rewritten tells which they were. -/
theorem rewritten_same (opened : CommentsOpen text) {front rest out : List Char}
    (split : chars text = front.reverse ++ rest)
    (stands : Rewritten (StandsAt text "ordering" "key") front.length rest out)
    (plain : Rewritten (PlainAt text "ordering" "key") front.length rest out) (there reach : Nat)
    (after : front.length ≤ there) :
    StandsAt text "ordering" "key" there reach ↔ PlainAt text "ordering" "key" there reach := by
  induction length : rest.length using Nat.strong_induction_on generalizing front rest out with
  | _ n ih =>
    subst length
    have whole := congrArg List.length split
    rw [chars_length, List.length_append, List.length_reverse] at whole
    have outside (none_ : rest = []) (p : Phrase text "ordering" "key") : ¬front.length ≤ p.start := by
      have fits := p.fits
      have some_ := p.reach_pos
      rw [none_, List.length_nil] at whole
      omega
    rcases stands.inv with none_ | ⟨r, out₁, ⟨p, stands_, start, rfl⟩, rfl, more⟩ | ⟨c, rest', out₁,
      rfl, rfl, unfound, more⟩
    · refine iff_of_false ?_ ?_
      · rintro ⟨p, -, rfl, -⟩
        exact outside none_ p after
      · rintro ⟨p, -, rfl, -⟩
        exact outside none_ p after
    · rcases plain.inv with none_ | ⟨r', out₂, ⟨q, plain_, start', rfl⟩, same, more'⟩ | ⟨c, rest',
        out₂, rfl, same, -, -⟩
      · exact absurd start.ge (outside none_ p)
      · have together := p.reach_same opened q (by decide) stands_ plain_ (start.trans start'.symm)
        have fits := p.fits
        have some_ := p.reach_pos
        obtain rfl := List.append_cancel_left same
        rcases Nat.lt_or_ge there (front.length + p.reach) with near | far
        · exact together_same opened stands_ plain_ (start.trans start'.symm) (start ▸ after)
            (start ▸ near)
        · have passed : ((rest.take p.reach).reverse ++ front).length = front.length + p.reach := by
            rw [List.length_append, List.length_reverse, List.length_take]
            omega
          refine @ih (rest.drop p.reach).length ?_ ((rest.take p.reach).reverse ++ front)
            (rest.drop p.reach) out₁ ?_ ?_ ?_ ?_ rfl
          · rw [List.length_drop]
            omega
          · rw [split, List.reverse_append, List.reverse_reverse, List.append_assoc,
              List.take_append_drop]
          · rw [passed]
            exact more
          · rw [passed, together]
            exact more'
          · rw [passed]
            exact far
      · exact (phrase_unlike split p start same).elim
    · rcases plain.inv with none_ | ⟨r', out₂, ⟨q, plain_, start', rfl⟩, same, more'⟩ | ⟨c', rest'',
        out₂, same, same', unfound', more'⟩
      · cases none_
      · exact (phrase_unlike split q start' same.symm).elim
      · obtain ⟨rfl, rfl⟩ := List.cons.inj same
        obtain ⟨-, rfl⟩ := List.cons.inj same'
        rcases Nat.eq_or_lt_of_le after with rfl | later
        · exact iff_of_false (unfound reach) (unfound' reach)
        · exact @ih rest'.length (Nat.lt_succ_self _) (c :: front) rest' out₁
            (by rw [split, List.reverse_cons, List.append_assoc]; rfl)
            more more' later rfl

omit [Alphabet] in
/-- By the common rules a comment opens with a dash or a slash. -/
theorem Reading.marked_opens {reading : Reading} {text : List Char}
    {front back : List (Char × Role)} {m : Char × Role}
    (split : reading.marked text = front ++ m :: back) (comment : m.2 = .comment)
    (opens : ∀ d, front.getLast? = some d → d.2 ≠ .comment)
    (outside : front = [] → reading = .code ∨ reading = .string ∨ reading = .identifier) :
    m.1 = '-' ∨ m.1 = '/' := by
  induction front generalizing reading text with
  | nil =>
    cases text with
    | nil => cases split
    | cons c text =>
      obtain ⟨rfl, -⟩ := List.cons.inj split
      rcases outside rfl with rfl | rfl | rfl
      · rw [Reading.next] at comment
        split_ifs at comment with tick double dash slash
        · exact .inl (eq_of_beq (Bool.and_eq_true_iff.mp dash).1)
        · exact .inr (eq_of_beq (Bool.and_eq_true_iff.mp slash).1)
      · cases comment
      · cases comment
  | cons x front ih =>
    cases text with
    | nil => cases split
    | cons c text =>
      obtain ⟨rfl, split'⟩ := List.cons.inj split
      refine ih split' (fun d last => opens d ?_) fun none_ => ?_
      · rw [List.getLast?_cons, last]
        rfl
      · subst none_
        have uncommented := opens _ rfl
        cases reading with
        | code =>
          rw [Reading.next] at uncommented ⊢
          split_ifs at uncommented ⊢ <;> simp_all
        | string =>
          rw [Reading.next]
          split_ifs <;> simp
        | identifier =>
          rw [Reading.next]
          split_ifs <;> simp
        | line | opening | block => exact absurd rfl uncommented

omit [Alphabet] in
theorem Common.commentsOpen (common : Common text) : CommentsOpen text := by
  intro front m back split comment opens
  rw [Common, marked] at common
  rcases Reading.marked_opens (common.symm.trans split) comment opens fun _ =>
    .inl rfl with dash | slash
  · exact .inl dash
  · exact .inr (.inl slash)

def Reading.quote : Reading → Option Char
  | .string => some '\''
  | .identifier => some '"'
  | _ => none

omit [Alphabet] in
/-- Without comments the quotes say what is code. -/
theorem Reading.marked_quote {reading : Reading}
    (outside : reading = .code ∨ reading = .string ∨ reading = .identifier)
    {front : List Char} (bare : ∀ m ∈ reading.marked (front ++ rest), m.2 ≠ .comment) :
    ∃ reading' : Reading, (reading.marked (front ++ rest)).drop front.length = reading'.marked rest ∧
      openQuote reading.quote front = reading'.quote ∧
      (reading' = .code ∨ reading' = .string ∨ reading' = .identifier) := by
  induction front generalizing reading with
  | nil => exact ⟨reading, rfl, by cases reading <;> rfl, outside⟩
  | cons c front ih =>
    rw [List.cons_append, Reading.marked] at bare
    have here := bare _ List.mem_cons_self
    have step : ((reading.next c (front ++ rest).head?).2 = .code ∨
      (reading.next c (front ++ rest).head?).2 = .string ∨
        (reading.next c (front ++ rest).head?).2 = .identifier) ∧
        openQuote reading.quote (c :: front) = openQuote
          (reading.next c (front ++ rest).head?).2.quote front := by
      rcases outside with rfl | rfl | rfl
      · rw [Reading.next] at here ⊢
        by_cases tick : c = '\''
        · simp [tick, Reading.quote, openQuote]
        · by_cases double : c = '"'
          · simp [double, Reading.quote, openQuote]
          · rw [if_neg tick, if_neg double] at here ⊢
            split_ifs at here ⊢
            · exact absurd rfl here
            · exact absurd rfl here
            · simp [tick, double, Reading.quote, openQuote]
      · by_cases tick : c = '\'' <;> simp [Reading.next, tick, Reading.quote, openQuote]
      · by_cases double : c = '"' <;> simp [Reading.next, double, Reading.quote, openQuote]
    obtain ⟨reading', split, quote, outside'⟩ := ih step.1 fun m member => bare m (.tail _ member)
    exact ⟨reading', split, step.2.trans quote, outside'⟩

/-- In a text without comments only a phrase after an opening parenthesis or a comma disturbs the
rewrite. -/
theorem undisturbed_of_uncommented (common : Common text) (bare : ∀ m ∈ text, m.2 ≠ .comment)
    (follows : ∀ first ∈ ["primary", "ordering"], ∀ p : Phrase text first "key", p.Stands →
      ∃ c, (chars p.head).reverse.find? (!isWhitespace ·) = some c ∧ c ≠ '(' ∧
      c ≠ ',') : Undisturbed text := by
  have lowered {first : String} (member : first ∈ ["primary", "ordering"]) : Lower first := by
    simp only [List.mem_cons, List.not_mem_nil, or_false] at member
    rcases member with rfl | rfl <;> decide
  -- A phrase begins in code where its quotes are closed.
  have reads {first : String} (p : Phrase text first "key") : ∃ reading : Reading,
      p.run ++ (p.gap ++ (p.run' ++ p.tail)) = reading.marked
        (chars (p.run ++ (p.gap ++ (p.run' ++ p.tail)))) ∧
        openQuote none (chars p.head) = reading.quote ∧
          (reading = .code ∨ reading = .string ∨ reading = .identifier) := by
    have whole := congrArg chars p.split
    rw [chars_append] at whole
    rw [Common, marked, whole] at common
    obtain ⟨reading, split, quote, outside⟩ := @Reading.marked_quote
      (chars (p.run ++ (p.gap ++ (p.run' ++ p.tail)))) .code (.inl rfl) (chars p.head)
        fun m member => bare m (common ▸ member)
    rw [← common, chars_length] at split
    exact ⟨reading, p.rest_eq.trans split, quote, outside⟩
  refine ⟨fun first member p stands => ⟨fun m inside => ?_, follows first member p stands, ?_⟩,
    fun first member p plain => ?_⟩
  · have gap := stands.gap m inside
    have uncommented := bare m (by
      rw [p.split]
      exact List.mem_append_right _ (List.mem_append_right _ (List.mem_append_left _ inside)))
    rw [isGap, beq_eq_false_iff_ne.mpr uncommented, Bool.false_or, Bool.and_eq_true] at gap
    exact gap.2
  · obtain ⟨reading, split, quote, outside⟩ := reads p
    rw [quote]
    obtain ⟨m, more, run⟩ := List.exists_cons_of_ne_nil (List.ne_nil_of_length_pos (by
      rw [p.run_length]
      exact List.length_pos_iff.mpr (lowered member).1 : 0 < p.run.length))
    have code := stands.run m (by rw [run]; exact List.mem_cons_self)
    rw [run] at split
    have mark := congrArg Prod.snd (List.cons.inj split).1
    rcases outside with rfl | rfl | rfl
    · rfl
    · cases code.symm.trans mark
    · cases code.symm.trans mark
  · obtain ⟨reading, split, quote, outside⟩ := reads p
    rw [plain.closed] at quote
    obtain rfl : reading = .code := by
      rcases outside with rfl | rfl | rfl
      · rfl
      · cases quote
      · cases quote
    have body : p.run ++ (p.gap ++ (p.run' ++ p.tail)) = (p.run ++ (p.gap ++ p.run')) ++ p.tail := by
      rw [List.append_assoc, List.append_assoc]
    rw [body, chars_append, Reading.marked_plain (plain.unquoted (lowered member))] at split
    have marks := List.append_inj_left split (by rw [List.length_map, chars_length])
    have code {m : Char × Role} (inside : m ∈ p.run ++ (p.gap ++ p.run')) : m.2 = .code := by
      rw [marks] at inside
      obtain ⟨c, -, rfl⟩ := List.mem_map.mp inside
      rfl
    refine ⟨fun m inside => code (List.mem_append_left _ inside), fun m inside => ?_,
      fun m inside => code (List.mem_append_right _ (List.mem_append_right _ inside))⟩
    rw [isGap, code (List.mem_append_right _ (List.mem_append_left _ inside)), plain.spaced m inside]
    rfl

end Rewrite

end Phrases

@[reducible] def asciiAlphabet : Alphabet := ⟨Char.isAlphanum, fun _ _ => rfl⟩

/-- A text that is the same rewritten has nothing to rewrite. -/
theorem Rewritten.unfound {found : Nat → Nat → Prop} {start : Nat} {rest out : List Char}
    (rewritten : Rewritten found start rest out)
    (unlike : 'P' ∉ out) {there : Nat} (after : start ≤ there)
    (before : there < start + rest.length) (reach : Nat) :
    ¬found there reach := by
  induction rewritten with
  | nil =>
    rw [List.length_nil] at before
    omega
  | phrase here more ih => exact absurd (List.mem_append_left _ (by decide)) unlike
  | char unfound more ih =>
    rw [List.length_cons] at before
    rcases Nat.eq_or_lt_of_le after with rfl | later
    · exact unfound reach
    · exact ih (fun member => unlike (.tail _ member)) later (by omega)

end TallyDB
