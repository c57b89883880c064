import Mathlib.Data.Nat.Digits.Defs
import TallyDB.QueryLite.Phrases

/-!
# The search for a clause

A clause is some words, one after the other. The search for one goes through the tokens, and passes every
token but the first of a clause. It ends well if it passes all, or all but one.
-/

namespace TallyDB

/-! ### The grammar of the clauses -/

/-- The word, whatever its case. -/
def Names (word : List Char) (keyword : String) : Prop := word.map Char.toLower = keyword.toList

/-- The word is a decimal number of 64 bits. -/
def Decimal (word : List Char) (value : Nat) : Prop :=
  ∃ digits : List Char, digits ≠ [] ∧ (∀ c ∈ digits, c.isDigit = true) ∧
    (word = digits ∨ word = '+' :: digits) ∧
    value = Nat.ofDigits 10 (digits.reverse.map fun c => c.toNat - '0'.toNat) ∧ value < 2 ^ 64

/-- The words of a knowledge-time clause, with the cut it names. -/
inductive AsOfWords : List (List Char) → Nat → Prop
  | asof {asof number : List Char} {cut : Nat} (asof_ : Names asof "asof")
        (number_ : Decimal number cut) :
      AsOfWords [asof, number] cut
  | systemTime {for_ systemTime as of number : List Char} {cut : Nat} (for' : Names for_ "for")
      (systemTime_ : Names systemTime "system_time") (as_ : Names as "as") (of_ : Names of "of")
      (number_ : Decimal number cut) : AsOfWords [for_, systemTime, as, of, number] cut

/-! ### Words and tokens -/

variable {token last : Token} {rest tokens : List Token} {previous : Option Token} {word : List Char}

theorem is_iff {keyword : String} : token.is keyword = true ↔ Names token.text keyword := by
  rw [Token.is, beq_iff_eq, Names]

theorem is_false {keyword : String} : token.is keyword = false ↔ ¬Names token.text keyword := by
  rw [← is_iff, Bool.not_eq_true]

theorem Names.other {keyword keyword' : String} (names : Names word keyword)
    (other : keyword.toList ≠ keyword'.toList) :
    ¬Names word keyword' := fun names' => other (names.symm.trans names')

theorem Decimal.head {value : Nat} (decimal : Decimal word value) : ∃ c rest, word = c :: rest ∧
    (c = '+' ∨ c.isDigit = true) := by
  obtain ⟨digits, filled, all, word_, -⟩ := decimal
  cases digits with
  | nil => exact absurd rfl filled
  | cons c digits =>
    rcases word_ with rfl | rfl
    · exact ⟨c, digits, rfl, .inr (all c List.mem_cons_self)⟩
    · exact ⟨'+', c :: digits, rfl, .inl rfl⟩

theorem Decimal.unnamed {value : Nat} {keyword : String} (decimal : Decimal word value)
    (letter : keyword.toList.head?.all Char.isLower = true) : ¬Names word keyword := by
  obtain ⟨c, rest, rfl, sign⟩ := decimal.head
  intro names
  have lower : c.toLower.isLower = true := by rwa [← names] at letter
  rcases sign with rfl | digit
  · exact absurd lower (by decide)
  · have same : c.toLower = c := by
      refine dif_neg fun upper => ?_
      simp only [Char.isDigit, Bool.and_eq_true, decide_eq_true_eq] at digit
      have high := UInt32.le_iff_toNat_le.mp upper.1
      have low := UInt32.le_iff_toNat_le.mp digit.2
      simp at high low
      omega
    have range : (decide (c.val ≥ 97) && decide (c.val ≤ 122)) = true := by rwa [same] at lower
    simp only [Char.isDigit, Bool.and_eq_true, decide_eq_true_eq] at digit range
    have high := UInt32.le_iff_toNat_le.mp range.1
    have low := UInt32.le_iff_toNat_le.mp digit.2
    simp at high low
    omega

theorem Decimal.bare {value : Nat} (decimal : Decimal word value) : Bare word := by
  obtain ⟨c, rest, rfl, sign⟩ := decimal.head
  intro d first
  obtain rfl := Option.some.inj first
  rcases sign with rfl | digit
  · exact ⟨by decide, by decide, by decide⟩
  · refine ⟨?_, ?_, ?_⟩
    · rintro rfl
      exact absurd digit (by decide)
    · rintro rfl
      exact absurd digit (by decide)
    · by_contra point
      rw [Bool.not_eq_false, isPoint] at point
      simp only [Bool.or_eq_true, beq_iff_eq] at point
      rcases point with ((rfl | rfl) | rfl) | rfl <;> exact absurd digit (by decide)

theorem Names.bare {keyword : String} (names : Names word keyword)
    (letter : keyword.toList.head?.all Char.isLower = true) : Bare word := by
  intro c first
  have lower : c.toLower.isLower = true := by rwa [← names, List.head?_map, first] at letter
  refine ⟨?_, ?_, ?_⟩
  · rintro rfl
    exact absurd lower (by decide)
  · rintro rfl
    exact absurd lower (by decide)
  · by_contra point
    rw [Bool.not_eq_false, isPoint] at point
    simp only [Bool.or_eq_true, beq_iff_eq] at point
    rcases point with ((rfl | rfl) | rfl) | rfl <;> exact absurd lower (by decide)

theorem parseU64_iff {value : Nat} : parseU64 word = some value ↔ Decimal word value := by
  have fold (digits : List Char) : digits.foldl (fun value c => value * 10 + (c.toNat - '0'.toNat)) 0 =
      Nat.ofDigits 10 (digits.reverse.map fun c => c.toNat - '0'.toNat) := by
    rw [Nat.ofDigits_eq_foldr, List.foldr_map, List.foldr_reverse]
    congr 1
    funext value c
    rw [Nat.cast_id, Nat.add_comm, Nat.mul_comm]
  unfold parseU64
  simp only [fold]
  constructor
  · obtain ⟨digits, digits_⟩ : ∃ digits, (if word.head? = some '+' then word.tail else word) =
      digits := ⟨_, rfl⟩
    have word_ : word = digits ∨ word = '+' :: digits := by
      by_cases plus : word.head? = some '+'
      · rw [if_pos plus] at digits_
        obtain ⟨rest, rfl⟩ := List.head?_eq_some_iff.mp plus
        exact .inr (congrArg _ digits_)
      · rw [if_neg plus] at digits_
        exact .inl digits_
    rw [digits_]
    intro read
    by_cases holds : digits ≠ [] ∧ digits.all Char.isDigit = true ∧
        Nat.ofDigits 10 (digits.reverse.map fun c => c.toNat - '0'.toNat) < 2 ^ 64
    · rw [if_pos holds] at read
      obtain rfl := Option.some.inj read
      exact ⟨digits, holds.1, List.all_eq_true.mp holds.2.1, word_, rfl, holds.2.2⟩
    · rw [if_neg holds] at read
      cases read
  · rintro ⟨digits, filled, all, word_, rfl, less⟩
    have digits_ : (if word.head? = some '+' then word.tail else word) = digits := by
      rcases word_ with rfl | rfl
      · refine if_neg fun plus => ?_
        obtain ⟨rest, rfl⟩ := List.head?_eq_some_iff.mp plus
        exact absurd (all '+' List.mem_cons_self) (by decide)
      · exact if_pos rfl
    rw [digits_, if_pos ⟨filled, List.all_eq_true.mpr all, less⟩]

/-! ### The clause at the head of the tokens -/

theorem asOfAt_systemTime {f s a o x : Token} (f_ : f.is "for" = true) (s_ : s.is "system_time" = true)
    (a_ : a.is "as" = true) (o_ : o.is "of" = true) : asOfAt
      (f :: s :: a :: o :: x :: rest) = some (some x, 5) := by
  simp [asOfAt, f_, s_, a_, o_]

theorem asOfAt_asof (asof : token.is "asof" = true) (joinless : rest.head?.any (·.is "join") = false) :
    asOfAt (token :: rest) = some (rest.head?, 2) := by
  have other : token.is "for" = false := is_false.mpr ((is_iff.mp asof).other (by decide))
  simp [asOfAt, asof, joinless, other]

theorem asOfAt_cases (tokens : List Token) :
    (∃ f s a o x rest, tokens = f :: s :: a :: o :: x :: rest ∧ f.is "for" = true ∧
      s.is "system_time" = true ∧
      a.is "as" = true ∧ o.is "of" = true) ∨
    (∃ token rest, tokens = token :: rest ∧ token.is "asof" = true ∧
      rest.head?.any (·.is "join") = false) ∨
    asOfAt tokens = none := by
  cases tokens with
  | nil => exact .inr (.inr rfl)
  | cons token rest =>
    by_cases system : (token.is "for" && rest.head?.any (·.is "system_time") &&
      rest[1]?.any (·.is "as") &&
        rest[2]?.any (·.is "of") && rest[3]?.isSome) = true
    · have long : rest[3]?.isSome = true := (Bool.and_eq_true_iff.mp system).2
      match rest, long with
      | s :: a :: o :: x :: rest, long =>
        simp only [List.head?_cons, List.getElem?_cons_succ, List.getElem?_cons_zero,
          Option.any_some, Bool.and_eq_true,
          Option.isSome_some, and_true] at system
        exact .inl ⟨token, s, a, o, x, rest, rfl, system.1.1.1, system.1.1.2, system.1.2, system.2⟩
    · by_cases asof : (token.is "asof" && !rest.head?.any (·.is "join")) = true
      · rw [Bool.and_eq_true, Bool.not_eq_true'] at asof
        exact .inr (.inl ⟨token, rest, rfl, asof.1, asof.2⟩)
      · exact .inr (.inr (by rw [asOfAt, if_neg system, if_neg asof]))

/-- The tokens start with a clause just where their words do. -/
theorem asOfAt_words {width cut : Nat} :
    (asOfAt tokens = some (some last, width) ∧ parseU64 last.text = some cut) ↔
      ∃ words, AsOfWords words cut ∧ words <+: tokens.map Token.text ∧ words.length = width ∧
        tokens[width - 1]? = some last := by
  constructor
  · rintro ⟨found, read⟩
    have decimal := parseU64_iff.mp read
    rcases asOfAt_cases tokens with ⟨f, s, a, o, x, rest, rfl, f_, s_, a_, o_⟩ | ⟨token, rest, rfl,
      asof, joinless⟩ | none_
    · rw [asOfAt_systemTime f_ s_ a_ o_] at found
      cases found
      exact ⟨_, .systemTime (is_iff.mp f_) (is_iff.mp s_) (is_iff.mp a_) (is_iff.mp o_) decimal,
        ⟨rest.map Token.text, rfl⟩, rfl, rfl⟩
    · rw [asOfAt_asof asof joinless] at found
      obtain ⟨argument, rfl⟩ := Prod.mk.inj (Option.some.inj found)
      obtain ⟨rest, rfl⟩ := List.head?_eq_some_iff.mp argument
      exact ⟨_, .asof (is_iff.mp asof) decimal, ⟨rest.map Token.text, rfl⟩, rfl, rfl⟩
    · rw [none_] at found
      cases found
  · rintro ⟨words, knowledge, reads, rfl, there⟩
    cases knowledge with
    | asof asof number =>
      match tokens, reads with
      | token :: x :: rest, reads =>
        simp only [List.map_cons, List.cons_prefix_cons] at reads
        obtain ⟨rfl, rfl, -⟩ := reads
        obtain rfl := Option.some.inj there
        have joinless : (x :: rest).head?.any (·.is "join") = false :=
          is_false.mpr (number.unnamed (by decide))
        exact ⟨asOfAt_asof (is_iff.mpr asof) joinless, parseU64_iff.mpr number⟩
    | systemTime f_ s_ a_ o_ number =>
      match tokens, reads with
      | f :: s :: a :: o :: x :: rest, reads =>
        simp only [List.map_cons, List.cons_prefix_cons] at reads
        obtain ⟨rfl, rfl, rfl, rfl, rfl, -⟩ := reads
        obtain rfl := Option.some.inj there
        exact ⟨asOfAt_systemTime (is_iff.mpr f_) (is_iff.mpr s_) (is_iff.mpr a_) (is_iff.mpr o_),
          parseU64_iff.mpr number⟩

theorem asOfAt_split {width : Nat} (found : asOfAt (token :: rest) = some (some last, width)) :
    ∃ inner after, rest = inner ++ last :: after ∧ width = inner.length + 2 := by
  rcases asOfAt_cases (token :: rest) with ⟨f, s, a, o, x, after, split, f_, s_, a_, o_⟩ | ⟨token',
    after, split, asof, joinless⟩ | none_
  · rw [split, asOfAt_systemTime f_ s_ a_ o_] at found
    cases found
    exact ⟨[s, a, o], after, (List.cons.inj split).2, rfl⟩
  · rw [split, asOfAt_asof asof joinless] at found
    obtain ⟨argument, rfl⟩ := Prod.mk.inj (Option.some.inj found)
    obtain ⟨after, rfl⟩ := List.head?_eq_some_iff.mp argument
    exact ⟨[], after, (List.cons.inj split).2, rfl⟩
  · rw [none_] at found
    cases found

/-- What the lift refuses of the words that come after a word. -/
inductive Refuses (behind : Option (List Char)) (words : List (List Char)) : Prop
  | bare {asof : List Char} (reads : [asof] <+: words) (asof_ : Names asof "asof")
      (alone : ∀ next, [asof, next] <+: words → ¬Names next "join" ∧ ∀ cut, ¬Decimal next cut)
  | unnumbered {for_ systemTime as of : List Char} (reads : [for_, systemTime, as, of] <+: words)
      (for' : Names for_ "for") (systemTime_ : Names systemTime "system_time") (as_ : Names as "as")
      (of_ : Names of "of") (more : 4 < words.length)
      (alone : ∀ next cut, [for_, systemTime, as, of, next] <+: words → ¬Decimal next cut)
  | aliased {as of number : List Char} {cut : Nat} (reads : [as, of, number] <+: words)
      (as_ : Names as "as")
      (of_ : Names of "of") (number_ : Decimal number cut) (alone : ∀ word, behind = some word →
        ¬Names word "system_time")

theorem AsOfWords.unrefused {behind : Option (List Char)} {words all : List (List Char)} {cut : Nat}
    (knowledge : AsOfWords words cut) (reads : words <+: all) : ¬Refuses behind all := by
  obtain ⟨more, rfl⟩ := reads
  intro refuses
  cases knowledge with
  | asof asof number =>
    cases refuses with
    | bare reads asof' alone =>
      obtain ⟨rfl, -⟩ := List.cons_prefix_cons.mp reads
      exact (alone _ ⟨more, rfl⟩).2 _ number
    | unnumbered reads for' systemTime as of length alone =>
      obtain ⟨rfl, -⟩ := List.cons_prefix_cons.mp reads
      exact for'.other (by decide) asof
    | aliased reads as of number' alone =>
      obtain ⟨rfl, -⟩ := List.cons_prefix_cons.mp reads
      exact as.other (by decide) asof
  | systemTime for_ systemTime as of number =>
    cases refuses with
    | bare reads asof' alone =>
      obtain ⟨rfl, -⟩ := List.cons_prefix_cons.mp reads
      exact for_.other (by decide) asof'
    | unnumbered reads for' systemTime as of length alone =>
      simp only [List.cons_append, List.nil_append, List.cons_prefix_cons] at reads
      obtain ⟨rfl, rfl, rfl, rfl, -⟩ := reads
      exact alone _ _ ⟨more, rfl⟩ number
    | aliased reads as' of number' alone =>
      obtain ⟨rfl, -⟩ := List.cons_prefix_cons.mp reads
      exact as'.other (by decide) for_

theorem nearMiss_alias (miss : nearMiss previous tokens = true) : Refuses (previous.map Token.text)
      (tokens.map Token.text) := by
  match tokens, miss with
  | a :: o :: x :: rest, miss =>
    simp only [nearMiss, Bool.and_eq_true, Bool.not_eq_true'] at miss
    obtain ⟨⟨⟨a_, o_⟩, read⟩, behind⟩ := miss
    obtain ⟨cut, read⟩ := Option.isSome_iff_exists.mp read
    refine .aliased ⟨rest.map Token.text, rfl⟩ (is_iff.mp a_) (is_iff.mp o_) (parseU64_iff.mp read)
      fun word there => ?_
    obtain ⟨token, rfl, rfl⟩ := Option.map_eq_some_iff.mp there
    exact is_false.mp behind

theorem nearMiss_of_alias {as of number : List Char} {cut : Nat}
    (reads : [as, of, number] <+: tokens.map Token.text)
    (as_ : Names as "as") (of_ : Names of "of") (number_ : Decimal number cut)
    (alone : ∀ word, previous.map Token.text = some word → ¬Names word "system_time") :
    nearMiss previous tokens = true := by
  match tokens, reads with
  | a :: o :: x :: rest, reads =>
    simp only [List.map_cons, List.cons_prefix_cons] at reads
    obtain ⟨rfl, rfl, rfl, -⟩ := reads
    have behind : previous.any (·.is "system_time") = false := by
      cases previous with
      | none => rfl
      | some token => exact is_false.mpr (alone _ rfl)
    simp [nearMiss, is_iff.mpr as_, is_iff.mpr of_, parseU64_iff.mpr number_, behind]

/-- Neither a clause nor what is refused is at the head of the tokens. -/
theorem quiet_iff : (asOfAt tokens = none ∧ nearMiss previous tokens = false) ↔
    ¬Refuses (previous.map Token.text) (tokens.map Token.text) ∧
      ∀ words cut, AsOfWords words cut → ¬words <+: tokens.map Token.text := by
  constructor
  · rintro ⟨none_, unmissed⟩
    refine ⟨fun refuses => ?_, fun words cut knowledge reads => ?_⟩
    · cases refuses with
      | bare reads asof alone =>
        match tokens, reads with
        | token :: rest, reads =>
          obtain ⟨rfl, -⟩ := List.cons_prefix_cons.mp reads
          have joinless : rest.head?.any (·.is "join") = false := by
            cases rest with
            | nil => rfl
            | cons next rest => exact is_false.mpr (alone next.text ⟨rest.map Token.text, rfl⟩).1
          rw [asOfAt_asof (is_iff.mpr asof) joinless] at none_
          cases none_
      | unnumbered reads for_ systemTime as of more alone =>
        match tokens, reads, more with
        | f :: s :: a :: o :: x :: rest, reads, more =>
          simp only [List.map_cons, List.cons_prefix_cons] at reads
          obtain ⟨rfl, rfl, rfl, rfl, -⟩ := reads
          rw [asOfAt_systemTime (is_iff.mpr for_) (is_iff.mpr systemTime) (is_iff.mpr as)
            (is_iff.mpr of)] at none_
          cases none_
      | aliased reads as of number alone =>
        rw [nearMiss_of_alias reads as of number alone] at unmissed
        cases unmissed
    · have inside : words.length - 1 < tokens.length := by
        have short := reads.length_le
        rw [List.length_map] at short
        have some_ : 0 < words.length := by cases knowledge <;> exact Nat.succ_pos _
        omega
      obtain ⟨found, -⟩ :=
        asOfAt_words.mpr ⟨words, knowledge, reads, rfl, List.getElem?_eq_getElem inside⟩
      rw [none_] at found
      cases found
  · rintro ⟨unrefused, unknown⟩
    have unmissed : nearMiss previous tokens = false :=
      Bool.eq_false_iff.mpr fun miss => unrefused (nearMiss_alias miss)
    refine ⟨?_, unmissed⟩
    rcases asOfAt_cases tokens with ⟨f, s, a, o, x, rest, rfl, f_, s_, a_, o_⟩ | ⟨token, rest, rfl,
      asof, joinless⟩ | none_
    · refine absurd (.unnumbered ⟨x.text :: rest.map Token.text, rfl⟩ (is_iff.mp f_) (is_iff.mp s_)
        (is_iff.mp a_) (is_iff.mp o_)
        (by simp) fun next cut reads decimal => ?_) unrefused
      exact unknown _ cut
        (.systemTime (is_iff.mp f_) (is_iff.mp s_) (is_iff.mp a_) (is_iff.mp o_) decimal) reads
    · refine absurd (.bare ⟨rest.map Token.text, rfl⟩ (is_iff.mp asof) fun next reads =>
        ⟨fun join => ?_, fun cut decimal => ?_⟩) unrefused
      · cases rest with
        | nil => simp at reads
        | cons x rest =>
          simp only [List.map_cons, List.cons_prefix_cons] at reads
          obtain ⟨-, rfl, -⟩ := reads
          exact is_false.mp joinless join
      · exact unknown _ cut (.asof (is_iff.mp asof) decimal) reads
    · exact none_

/-! ### The search for the clause -/

def behind (previous : Option Token) (tokens : List Token) : Nat → Option Token
  | 0 => previous
  | n + 1 => tokens[n]?

/-- The search passes the `n`-th token. -/
def QuietAt (previous : Option Token) (tokens : List Token) (n : Nat) : Prop :=
  asOfAt (tokens.drop n) = none ∧ nearMiss (behind previous tokens n) (tokens.drop n) = false

theorem quietAt_succ {n : Nat} : QuietAt previous (token :: rest) (n + 1) ↔ QuietAt
      (some token) rest n := by
  cases n <;> rfl

theorem quietAt_cons : (∀ n, QuietAt previous (token :: rest) n) ↔
    (asOfAt (token :: rest) = none ∧ nearMiss previous (token :: rest) = false) ∧
      ∀ n, QuietAt (some token) rest n := by
  rw [← Nat.and_forall_add_one]
  simp only [quietAt_succ]
  rfl

theorem quietAt_skip {inner after : List Token} {n : Nat} :
    QuietAt previous (inner ++ last :: after) (inner.length + 1 + n) ↔ QuietAt (some last) after n := by
  induction inner generalizing previous with
  | nil => rw [List.nil_append, List.length_nil, Nat.zero_add, Nat.add_comm 1, quietAt_succ]
  | cons token inner ih =>
    rw [List.cons_append, List.length_cons, Nat.add_right_comm (inner.length + 1), quietAt_succ, ih]

theorem asOfFrom_cons (previous : Option Token) (cut : Option (Nat × Token × Token)) (token : Token)
    (rest : List Token) :
    asOfFrom previous cut 0 (token :: rest) =
      match asOfAt (token :: rest) with
      | some (none, _) =>
          .error (.unsupported
            "ASOF at the end of the statement — it takes an ingest-sequence literal: ASOF <n>")
      | some (some argument, width) =>
        match parseCut argument with
        | .error e => .error e
        | .ok value =>
          if cut.isSome then .error (.unsupported "one AS OF per statement")
          else asOfFrom (some token) (some (value, token, argument)) (width - 1) rest
      | none =>
        if nearMiss previous (token :: rest) then
          .error (.unsupported
            ("AS OF <n> — SQL's alias grammar claims the two-word form; write ASOF <n> (one word), " ++
              "or the standard FOR SYSTEM_TIME AS OF <n>"))
        else asOfFrom (some token) cut 0 rest := rfl

theorem parseCut_ok {value : Nat} : parseCut token = .ok value ↔ parseU64 token.text = some value := by
  unfold parseCut
  cases parseU64 token.text with
  | none => exact iff_of_false (fun same => by cases same) fun same => by cases same
  | some cut =>
      exact ⟨fun same => congrArg some (Except.ok.inj same),
        fun same => congrArg Except.ok (Option.some.inj same)⟩

/-- With a clause found, the rest holds no other. -/
theorem asOfFrom_found {x : Nat × Token × Token} {y : Option (Nat × Token × Token)} :
    asOfFrom previous (some x) 0 tokens = .ok y ↔ y = some x ∧ ∀ n, QuietAt previous tokens n := by
  induction tokens generalizing previous with
  | nil =>
      exact ⟨fun same => ⟨(Except.ok.inj same).symm, fun n => by cases n <;> exact ⟨rfl, rfl⟩⟩,
        fun same => congrArg Except.ok same.1.symm⟩
  | cons token rest ih =>
    rw [asOfFrom_cons, quietAt_cons]
    cases found : asOfAt (token :: rest) with
    | some clause =>
      refine iff_of_false (fun same => ?_) fun all => by cases all.2.1.1
      obtain ⟨argument, width⟩ := clause
      cases argument with
      | none => cases same
      | some argument =>
        simp only at same
        cases parsed : parseCut argument with
        | error e =>
          rw [parsed] at same
          cases same
        | ok value =>
          rw [parsed] at same
          cases same
    | none =>
      simp only
      cases miss : nearMiss previous (token :: rest) with
      | true => exact iff_of_false (fun same => by cases same) fun all => by cases all.2.1.2
      | false =>
        simp only [Bool.false_eq_true, if_false, true_and]
        exact ih

theorem asOfFrom_passing (cut : Option (Nat × Token × Token)) (inner : List Token) (last : Token)
    (after : List Token) :
    asOfFrom previous cut (inner.length + 1) (inner ++ last :: after) = asOfFrom
      (some last) cut 0 after := by
  induction inner generalizing previous with
  | nil => rfl
  | cons token inner ih => exact ih

/-- The words of a clause past its first start no clause and are not refused. -/
theorem quiet_inside {inner after : List Token} {cut n : Nat}
    (found : asOfAt (token :: (inner ++ last :: after)) = some (some last, inner.length + 2))
    (read : parseU64 last.text = some cut) (inside : n < inner.length + 1) : QuietAt (some token)
      (inner ++ last :: after) n := by
  have number := parseU64_iff.mp read
  obtain ⟨words, knowledge, reads, length, -⟩ := asOfAt_words.mp ⟨found, read⟩
  -- No word but the first is one that a clause, or the two-word form, starts with.
  have unread (tokens : List Token) (behind : Option Token) (first : Token) (rest : List Token)
    (tokens_ : tokens = first :: rest)
      (for_ : ¬Names first.text "for") (asof : ¬Names first.text "asof")
      (as : Names first.text "as" → ∃ word, behind = some word ∧ Names word.text "system_time") :
      asOfAt tokens = none ∧ nearMiss behind tokens = false := by
    subst tokens_
    refine quiet_iff.mpr ⟨fun refuses => ?_, fun words cut knowledge reads => ?_⟩
    · cases refuses with
      | bare reads asof' alone =>
        obtain ⟨rfl, -⟩ := List.cons_prefix_cons.mp reads
        exact asof asof'
      | unnumbered reads for' systemTime as of more alone =>
        obtain ⟨rfl, -⟩ := List.cons_prefix_cons.mp reads
        exact for_ for'
      | aliased reads as' of number alone =>
        obtain ⟨rfl, -⟩ := List.cons_prefix_cons.mp reads
        obtain ⟨word, rfl, system⟩ := as as'
        exact alone _ rfl system
    · cases knowledge with
      | asof asof' number =>
        obtain ⟨rfl, -⟩ := List.cons_prefix_cons.mp reads
        exact asof asof'
      | systemTime for' systemTime as of number =>
        obtain ⟨rfl, -⟩ := List.cons_prefix_cons.mp reads
        exact for_ for'
  have final (behind : Option Token) : asOfAt (last :: after) = none ∧
      nearMiss behind (last :: after) = false :=
    unread _ behind last after rfl (number.unnamed (by decide)) (number.unnamed (by decide))
      fun as => absurd as (number.unnamed (by decide))
  cases knowledge with
  | asof asof number' =>
    obtain rfl : inner = [] := List.length_eq_zero_iff.mp (by simpa using length.symm)
    obtain rfl : n = 0 := by
      simp only [List.length_nil] at inside
      omega
    exact final _
  | systemTime for_ systemTime as of number' =>
    match inner, length with
    | [s, a, o], length =>
      simp only [List.map_cons, List.cons_append, List.nil_append, List.cons_prefix_cons] at reads
      obtain ⟨-, rfl, rfl, rfl, -⟩ := reads
      match n, inside with
      | 0, inside =>
          exact unread _ _ s _ rfl (systemTime.other (by decide)) (systemTime.other (by decide))
            fun as' => absurd as' (systemTime.other (by decide))
      | 1, inside =>
          exact unread _ _ a _ rfl (as.other (by decide)) (as.other (by decide)) fun as' =>
            ⟨s, rfl, systemTime⟩
      | 2, inside =>
          exact unread _ _ o _ rfl (of.other (by decide)) (of.other (by decide)) fun as' =>
            absurd as' (of.other (by decide))
      | 3, inside => exact final _

/-- The tokens hold one clause, from `first`, the `n`-th, to `last`. -/
structure OnlyAt (previous : Option Token) (tokens : List Token) (n cut : Nat)
    (first last : Token) : Prop where
  first : tokens[n]? = some first
  found : ∃ width, asOfAt (tokens.drop n) = some (some last, width)
  read : parseU64 last.text = some cut
  quiet : ∀ m, m ≠ n → QuietAt previous tokens m

section Only

variable {n cut : Nat} {first : Token}

theorem OnlyAt.zero (only : OnlyAt previous tokens n cut first last)
    (loud : ¬QuietAt previous tokens 0) : n = 0 := by
  by_contra other
  exact loud (only.quiet 0 (Ne.symm other))

theorem onlyAt_succ (quiet : QuietAt previous (token :: rest) 0) :
    OnlyAt previous (token :: rest) (n + 1) cut first last ↔
      OnlyAt (some token) rest n cut first last := by
  constructor
  · intro only
    exact ⟨only.first, only.found, only.read, fun m other =>
      quietAt_succ.mp (only.quiet (m + 1) fun same => other (Nat.succ.inj same))⟩
  · intro only
    refine ⟨only.first, only.found, only.read, fun m other => ?_⟩
    cases m with
    | zero => exact quiet
    | succ m => exact quietAt_succ.mpr (only.quiet m fun same => other (congrArg _ same))

/-- A clause at the head of the tokens is the only one just where none comes after it. -/
theorem onlyAt_zero {inner after : List Token} {last' : Token} {cut' : Nat}
    (found : asOfAt (token :: (inner ++ last :: after)) = some (some last, inner.length + 2))
    (read : parseU64 last.text = some cut) :
    OnlyAt previous (token :: (inner ++ last :: after)) 0 cut' first last' ↔
      (cut', first, last') = (cut, token, last) ∧ ∀ n, QuietAt (some last) after n := by
  constructor
  · intro only
    obtain rfl := Option.some.inj only.first
    obtain ⟨width, found'⟩ := only.found
    rw [List.drop_zero, found] at found'
    cases found'
    have same := only.read
    rw [read] at same
    cases same
    refine ⟨rfl, fun k => ?_⟩
    have quiet := only.quiet (inner.length + 1 + k + 1) (Nat.succ_ne_zero _)
    exact quietAt_skip.mp (quietAt_succ.mp quiet)
  · rintro ⟨same, quiet⟩
    cases same
    refine ⟨rfl, ⟨_, found⟩, read, fun m other => ?_⟩
    obtain ⟨m, rfl⟩ := Nat.exists_eq_succ_of_ne_zero other
    rw [quietAt_succ]
    by_cases inside : m < inner.length + 1
    · exact quiet_inside found read inside
    · obtain ⟨k, rfl⟩ := Nat.exists_eq_add_of_le (Nat.le_of_not_lt inside)
      exact quietAt_skip.mpr (quiet k)

/-- What the search of some tokens may end with. -/
def Finds (previous : Option Token) (tokens : List Token) (y : Option (Nat × Token × Token)) : Prop :=
  (y = none ∧ ∀ n, QuietAt previous tokens n) ∨
    ∃ n cut first last, y = some (cut, first, last) ∧ OnlyAt previous tokens n cut first last

variable {y : Option (Nat × Token × Token)}

theorem not_finds (loud : ¬QuietAt previous tokens 0)
    (unread : ∀ last width cut, asOfAt tokens = some (some last, width) →
      parseU64 last.text ≠ some cut) : ¬Finds previous tokens y := by
  rintro (⟨-, quiet⟩ | ⟨n, cut, first, last, -, only⟩)
  · exact loud (quiet 0)
  · obtain rfl := only.zero loud
    obtain ⟨width, found⟩ := only.found
    exact unread last width cut found only.read

theorem finds_clause {inner after : List Token}
    (found : asOfAt (token :: (inner ++ last :: after)) = some (some last, inner.length + 2))
    (read : parseU64 last.text = some cut) (loud : ¬QuietAt previous
      (token :: (inner ++ last :: after)) 0) :
    Finds previous (token :: (inner ++ last :: after)) y ↔
      y = some (cut, token, last) ∧ ∀ n, QuietAt (some last) after n := by
  constructor
  · rintro (⟨-, quiet⟩ | ⟨n, cut, first, last', rfl, only⟩)
    · exact absurd (quiet 0) loud
    · obtain rfl := only.zero loud
      obtain ⟨same, quiet⟩ := (onlyAt_zero found read).mp only
      exact ⟨congrArg some same, quiet⟩
  · rintro ⟨rfl, quiet⟩
    exact .inr ⟨0, cut, token, last, rfl, (onlyAt_zero found read).mpr ⟨rfl, quiet⟩⟩

theorem finds_quiet
    (quiet : asOfAt (token :: rest) = none ∧ nearMiss previous (token :: rest) = false) :
    Finds previous (token :: rest) y ↔ Finds (some token) rest y := by
  unfold Finds
  rw [quietAt_cons, and_iff_right quiet]
  refine or_congr_right ⟨?_, ?_⟩
  · rintro ⟨n, cut, first, last, rfl, only⟩
    cases n with
    | zero =>
      obtain ⟨width, found⟩ := only.found
      rw [List.drop_zero, quiet.1] at found
      cases found
    | succ n => exact ⟨n, cut, first, last, rfl, (onlyAt_succ quiet).mp only⟩
  · rintro ⟨n, cut, first, last, rfl, only⟩
    exact ⟨n + 1, cut, first, last, rfl, (onlyAt_succ quiet).mpr only⟩

/-- A search that succeeds finds no clause, or the only one. -/
theorem asOfFrom_ok : asOfFrom previous none 0 tokens = .ok y ↔ Finds previous tokens y := by
  induction tokens generalizing previous with
  | nil =>
    refine ⟨fun same => .inl ⟨(Except.ok.inj same).symm, fun n => by cases n <;> exact ⟨rfl, rfl⟩⟩,
      fun found => ?_⟩
    rcases found with ⟨rfl, -⟩ | ⟨n, cut, first, last, -, only⟩
    · rfl
    · cases only.first
  | cons token rest ih =>
    rw [asOfFrom_cons]
    cases found : asOfAt (token :: rest) with
    | some clause =>
      have loud : ¬QuietAt previous (token :: rest) 0 := fun quiet => by
        have here := quiet.1
        rw [List.drop_zero, found] at here
        cases here
      obtain ⟨argument, width⟩ := clause
      cases argument with
      | none =>
        refine iff_of_false (fun same => by cases same) (not_finds loud fun last width cut found' => ?_)
        rw [found] at found'
        cases found'
      | some argument =>
        simp only
        cases parsed : parseCut argument with
        | error e =>
          refine iff_of_false (fun same => by cases same)
            (not_finds loud fun last width cut found' read => ?_)
          rw [found] at found'
          cases found'
          rw [parseCut_ok.mpr read] at parsed
          cases parsed
        | ok value =>
          obtain ⟨inner, after, rfl, rfl⟩ := asOfAt_split found
          simp only [Option.isSome_none, Bool.false_eq_true, if_false]
          rw [show inner.length + 2 - 1 = inner.length + 1 from rfl, asOfFrom_passing, asOfFrom_found]
          exact (finds_clause found (parseCut_ok.mp parsed) loud).symm
    | none =>
      simp only
      cases miss : nearMiss previous (token :: rest) with
      | true =>
        refine iff_of_false (fun same => by cases same) (not_finds (fun quiet => ?_)
          fun last width cut found' => ?_)
        · have here := quiet.2
          rw [behind, List.drop_zero, miss] at here
          cases here
        · rw [found] at found'
          cases found'
      | false =>
        simp only [Bool.false_eq_true, if_false]
        exact ih.trans (finds_quiet ⟨found, miss⟩).symm

end Only

/-! ### The search for the join -/

/-- `ASOF` stands before a join of a kind, or before a bare one. -/
def joinAt : List Token → Option Bool
  | [] => none
  | token :: rest =>
    if token.is "asof" && rest.head?.any (·.is "join") then some false
    else if token.is "asof" && rest.head?.any (fun second => second.is "left" || second.is "inner") &&
        rest[1]?.any (·.is "join") then some true
    else none

theorem asofJoinFrom_cons (found : Option Token) (token : Token) (rest : List Token) :
    asofJoinFrom found (token :: rest) =
      match joinAt (token :: rest) with
      | some false => .error bareAsofJoin
      | some true =>
          if found.isSome then .error (.unsupported "one ASOF join per query") else asofJoinFrom
            (some token) rest
      | none => asofJoinFrom found rest := by
  rw [asofJoinFrom, joinAt]
  by_cases asof : token.is "asof" = true
  · by_cases bare : rest.head?.any (·.is "join") = true
    · simp [asof, bare]
    · by_cases kind : (rest.head?.any fun second => second.is "left" || second.is "inner") = true
      · by_cases join : rest[1]?.any (·.is "join") = true
        · simp [asof, bare, kind, join]
        · simp [asof, bare, kind, join]
      · simp [asof, bare, kind]
  · simp [asof]

theorem joinAt_bare : joinAt tokens = some false ↔
    ∃ asof join, [asof, join] <+: tokens.map Token.text ∧ Names asof "asof" ∧ Names join "join" := by
  constructor
  · intro found
    match tokens, found with
    | token :: rest, found =>
      rw [joinAt] at found
      split_ifs at found with bare kind
      · obtain ⟨asof, next⟩ := Bool.and_eq_true_iff.mp bare
        match rest, next with
        | next :: rest, join => exact ⟨_, _, ⟨rest.map Token.text, rfl⟩, is_iff.mp asof, is_iff.mp join⟩
      · cases found
  · rintro ⟨asof, join, reads, asof_, join_⟩
    match tokens, reads with
    | token :: next :: rest, reads =>
      simp only [List.map_cons, List.cons_prefix_cons] at reads
      obtain ⟨rfl, rfl, -⟩ := reads
      simp [joinAt, is_iff.mpr asof_, is_iff.mpr join_]

theorem joinAt_kind : joinAt tokens = some true ↔ ∃ asof kind join,
    [asof, kind, join] <+: tokens.map Token.text ∧
    Names asof "asof" ∧ (Names kind "left" ∨ Names kind "inner") ∧ Names join "join" := by
  constructor
  · intro found
    match tokens, found with
    | token :: rest, found =>
      rw [joinAt] at found
      split_ifs at found with bare kind
      · cases found
      · simp only [Bool.and_eq_true] at kind
        obtain ⟨⟨asof, kind⟩, join⟩ := kind
        match rest, kind, join with
        | second :: third :: rest, kind, join =>
          simp only [List.head?_cons, Option.any_some, Bool.or_eq_true, is_iff] at kind
          exact ⟨_, _, _, ⟨rest.map Token.text, rfl⟩, is_iff.mp asof, kind, is_iff.mp join⟩
  · rintro ⟨asof, kind, join, reads, asof_, kind_, join_⟩
    match tokens, reads with
    | token :: second :: third :: rest, reads =>
      simp only [List.map_cons, List.cons_prefix_cons] at reads
      obtain ⟨rfl, rfl, rfl, -⟩ := reads
      have bare : second.is "join" = false := by
        refine is_false.mpr ?_
        rcases kind_ with left | inner
        · exact left.other (by decide)
        · exact inner.other (by decide)
      have kind' : (second.is "left" || second.is "inner") = true := by
        rw [Bool.or_eq_true, is_iff, is_iff]
        exact kind_
      rw [Bool.or_eq_true] at kind'
      simp [joinAt, is_iff.mpr asof_, is_iff.mpr join_, bare, kind']

theorem asofJoinFrom_found {x : Token} {y : Option Token} :
    asofJoinFrom (some x) tokens = .ok y ↔ y = some x ∧ ∀ n, joinAt (tokens.drop n) = none := by
  induction tokens with
  | nil =>
    refine ⟨fun same => ⟨(Except.ok.inj same).symm, fun n => ?_⟩,
      fun same => congrArg Except.ok same.1.symm⟩
    rw [List.drop_nil]
    rfl
  | cons token rest ih =>
    rw [asofJoinFrom_cons, ← Nat.and_forall_add_one, List.drop_zero]
    cases found : joinAt (token :: rest) with
    | some kind =>
        cases kind <;> exact iff_of_false (fun same => by cases same) fun all => by cases all.2.1
    | none =>
      simp only [true_and]
      exact ih

theorem asofJoinFrom_ok {y : Option Token} : asofJoinFrom none tokens = .ok y ↔
    (y = none ∧ ∀ n, joinAt (tokens.drop n) = none) ∨
      ∃ n token, y = some token ∧ tokens[n]? = some token ∧ joinAt (tokens.drop n) = some true ∧
        ∀ m, m ≠ n → joinAt (tokens.drop m) = none := by
  induction tokens with
  | nil =>
    refine ⟨fun same => .inl ⟨(Except.ok.inj same).symm, fun n => ?_⟩, fun found => ?_⟩
    · rw [List.drop_nil]
      rfl
    · rcases found with ⟨rfl, -⟩ | ⟨n, token, -, there, -⟩
      · rfl
      · cases there
  | cons token rest ih =>
    rw [asofJoinFrom_cons]
    cases found : joinAt (token :: rest) with
    | some kind =>
      have unquiet : ¬∀ n, joinAt ((token :: rest).drop n) = none := fun quiet => by
        have here := quiet 0
        rw [List.drop_zero, found] at here
        cases here
      have here {n : Nat} (quiet : ∀ m, m ≠ n → joinAt ((token :: rest).drop m) = none) : n = 0 := by
        by_contra other
        have head := quiet 0 (Ne.symm other)
        rw [List.drop_zero, found] at head
        cases head
      cases kind with
      | false =>
        refine iff_of_false (fun same => by cases same) ?_
        rintro (⟨-, quiet⟩ | ⟨n, token', -, -, found', quiet⟩)
        · exact unquiet quiet
        · obtain rfl := here quiet
          rw [List.drop_zero, found] at found'
          cases found'
      | true =>
        simp only [Option.isSome_none, Bool.false_eq_true, if_false]
        rw [asofJoinFrom_found]
        constructor
        · rintro ⟨rfl, quiet⟩
          refine .inr ⟨0, token, rfl, rfl, found, fun m other => ?_⟩
          obtain ⟨m, rfl⟩ := Nat.exists_eq_succ_of_ne_zero other
          exact quiet m
        · rintro (⟨-, quiet⟩ | ⟨n, token', rfl, there, -, quiet⟩)
          · exact absurd quiet unquiet
          · obtain rfl := here quiet
            obtain rfl := Option.some.inj there
            exact ⟨rfl, fun m => quiet (m + 1) m.succ_ne_zero⟩
    | none =>
      simp only
      rw [ih]
      refine or_congr (and_congr_right fun _ => ?_) ⟨?_, ?_⟩
      · rw [← Nat.and_forall_add_one (p := fun n => joinAt ((token :: rest).drop n) = none),
          List.drop_zero, and_iff_right found]
        rfl
      · rintro ⟨n, token', rfl, there, found', quiet⟩
        refine ⟨n + 1, token', rfl, there, found', fun m other => ?_⟩
        cases m with
        | zero => exact found
        | succ m => exact quiet m fun same => other (congrArg _ same)
      · rintro ⟨n, token', rfl, there, found', quiet⟩
        cases n with
        | zero =>
          rw [List.drop_zero, found] at found'
          cases found'
        | succ n =>
            exact ⟨n, token', rfl, there, found', fun m other => quiet (m + 1) fun same =>
              other (Nat.succ.inj same)⟩

end TallyDB
