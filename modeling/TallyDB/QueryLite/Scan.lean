import Mathlib.Data.List.TakeWhile
import TallyDB.QueryLite.Lift

/-!
# The tokens of a text

The lifts look at tokens only. Those are the words, the punctuation marks and the quotations of the text
just where no comment begins right after a word: such a comment the scanner takes for more of the word.
-/

namespace TallyDB

def isWordPart (m : Char × Role) : Bool := m.2 == .code && !isWhitespace m.1 && !isPoint m.1

/-- What the characters of a token are, before `rest`: a quotation from its quote on, a punctuation
mark, or a word as far as it goes. -/
inductive Spelling (run rest : List (Char × Role)) : Prop
  | quotation (quote : Char) (either : quote = '\'' ∨ quote = '"')
        (opened : run.head? = some (quote, .quoted))
      (quoted : ∀ m ∈ run, m.2 = .quoted)
  | point (c : Char) (point : isPoint c = true) (whole : run = [(c, .code)])
  | word (filled : run ≠ []) (word : ∀ m ∈ run, isWordPart m = true)
      (ends : ∀ m, rest.head? = some m → isWordPart m = false)

/-- The tokens make up the text, with nothing but gaps between them. -/
def LaidOut (start : Nat) (text : List (Char × Role)) : List Token → Prop
  | [] => ∀ m ∈ text, isGap m = true
  | token :: tokens =>
    ∃ gap run rest, text = gap ++ run ++ rest ∧ (∀ m ∈ gap, isGap m = true) ∧ Spelling run rest ∧
      token = ⟨chars run, start + gap.length, start + gap.length + run.length⟩ ∧
        LaidOut (start + gap.length + run.length) rest tokens

/-- A comment begins right after a part of a word. -/
def hugged : List (Char × Role) → Bool
  | [] => false
  | m :: rest => (isWordPart m && rest.head?.any (·.2 == .comment)) || hugged rest

section Scan

variable {start : Nat} {text run rest : List (Char × Role)} {tokens : List Token} {m : Char × Role}

theorem isWordPart_ungapped (part : isWordPart m = true) : isGap m = false := by
  simp only [isWordPart, Bool.and_eq_true, beq_iff_eq, Bool.not_eq_true'] at part
  simp [isGap, part.1.1, part.1.2]

theorem Spelling.ungapped (spelling : Spelling run rest) (member : m ∈ run) : isGap m = false := by
  cases spelling with
  | quotation quote either opened quoted => simp [isGap, quoted m member]
  | point c point whole =>
    subst whole
    obtain rfl := List.mem_singleton.mp member
    unfold isPoint at point
    simp only [Bool.or_eq_true, beq_iff_eq] at point
    rcases point with ((rfl | rfl) | rfl) | rfl <;> decide
  | word filled word ends => exact isWordPart_ungapped (word m member)

theorem Spelling.filled (spelling : Spelling run rest) : run ≠ [] := by
  cases spelling with
  | quotation quote either opened quoted =>
    rintro rfl
    cases opened
  | point c point whole =>
    rw [whole]
    exact List.cons_ne_nil _ _
  | word filled word ends => exact filled

theorem laid_gap (gap : isGap m = true) : LaidOut start (m :: text) tokens ↔ LaidOut
      (start + 1) text tokens := by
  cases tokens with
  | nil => exact ⟨fun all other member => all other (.tail _ member), fun all other member => by
      rcases List.mem_cons.mp member with rfl | later
      · exact gap
      · exact all other later⟩
  | cons token tokens =>
    constructor
    · rintro ⟨gaps, run, rest, split, all, spelling, token_, laid⟩
      cases gaps with
      | nil =>
        cases run with
        | nil => exact absurd rfl spelling.filled
        | cons head run =>
          obtain ⟨rfl, -⟩ := List.cons.inj split
          rw [spelling.ungapped List.mem_cons_self] at gap
          cases gap
      | cons head gaps =>
        obtain ⟨rfl, rfl⟩ := List.cons.inj split
        have place : start + (m :: gaps).length = start + 1 + gaps.length := by
          rw [List.length_cons]
          omega
        rw [place] at token_ laid
        exact ⟨gaps, run, rest, rfl, fun other member => all other (.tail _ member),
          spelling, token_, laid⟩
    · rintro ⟨gaps, run, rest, rfl, all, spelling, token_, laid⟩
      have place : start + (m :: gaps).length = start + 1 + gaps.length := by
        rw [List.length_cons]
        omega
      rw [← place] at token_ laid
      refine ⟨m :: gaps, run, rest, rfl, fun other member => ?_, spelling, token_, laid⟩
      rcases List.mem_cons.mp member with rfl | later
      · exact gap
      · exact all other later

theorem laid_gaps {gaps : List (Char × Role)} (all : ∀ m ∈ gaps, isGap m = true) :
    LaidOut start (gaps ++ text) tokens ↔ LaidOut (start + gaps.length) text tokens := by
  induction gaps generalizing start with
  | nil => rfl
  | cons m gaps ih =>
    rw [List.cons_append, laid_gap (all m List.mem_cons_self), ih fun other member =>
      all other (.tail _ member), List.length_cons,
      show start + 1 + gaps.length = start + (gaps.length + 1) by omega]

/-- A token at the head of the text, which does not start with a gap. -/
theorem laid_token (head : isGap m = false) :
    LaidOut start (m :: run ++ rest) (⟨chars (m :: run), start, start + (m :: run).length⟩ :: tokens) ↔
      Spelling (m :: run) rest ∧ LaidOut (start + (m :: run).length) rest tokens := by
  constructor
  · rintro ⟨gaps, run', rest', split, all, spelling, token_, laid⟩
    cases gaps with
    | nil =>
      obtain ⟨-, -, stop⟩ := Token.mk.inj token_
      have length : (m :: run).length = run'.length := by
        simp only [List.length_nil] at stop
        omega
      obtain ⟨rfl, rfl⟩ := List.append_inj split length
      exact ⟨spelling, laid⟩
    | cons other gaps =>
      obtain ⟨rfl, -⟩ := List.cons.inj split
      rw [all m List.mem_cons_self] at head
      cases head
  · rintro ⟨spelling, laid⟩
    refine ⟨[], m :: run, rest, rfl, fun other member => ?_, spelling, rfl, laid⟩
    cases member

theorem hugged_skip {part : List (Char × Role)} (wordless : ∀ m ∈ part, isWordPart m = false) :
    hugged (part ++ text) = hugged text := by
  induction part with
  | nil => rfl
  | cons m part ih =>
    rw [List.cons_append, hugged, wordless m List.mem_cons_self, ih fun other member =>
      wordless other (.tail _ member)]
    rfl

theorem hugged_part {part : List (Char × Role)} {d : Char} (some_ : part ≠ [])
    (words : ∀ m ∈ part, isWordPart m = true) :
    hugged (part ++ (d, .comment) :: text) = true := by
  induction part with
  | nil => exact absurd rfl some_
  | cons m part ih =>
    rw [List.cons_append, hugged]
    cases part with
    | nil => simp [words m List.mem_cons_self]
    | cons other part =>
      rw [ih (List.cons_ne_nil _ _) fun n member => words n (.tail _ member), Bool.or_true]

/-- Code before what is no comment hugs none. -/
theorem hugged_code {part : List (Char × Role)} (code : ∀ m ∈ part, m.2 = .code)
    (ends : text.head?.any (·.2 == .comment) = false) :
    hugged (part ++ text) = hugged text := by
  induction part with
  | nil => rfl
  | cons m part ih =>
    rw [List.cons_append, hugged, ih fun other member => code other (.tail _ member)]
    have next : (part ++ text).head?.any (·.2 == .comment) = false := by
      cases part with
      | nil => exact ends
      | cons other part =>
        have here := code other (.tail _ List.mem_cons_self)
        simp [here]
    rw [next, Bool.and_false, Bool.false_or]

/-! ### What a piece of text reads as -/

theorem lineRest_marked (rest : List Char) :
    Reading.line.marked rest = (rest.take (lineRest rest)).map
      (·, Role.comment) ++ Reading.code.marked (rest.drop (lineRest rest)) := by
  induction rest with
  | nil => rfl
  | cons c rest ih =>
    rw [Reading.marked, lineRest]
    by_cases ends : c = '\n'
    · simp [Reading.next, ends]
    · rw [if_neg ends, Nat.add_comm 1, List.take_succ_cons, List.drop_succ_cons, List.map_cons,
        List.cons_append, ← ih]
      simp [Reading.next, ends]

theorem blockRest_marked (previous : Char) (rest : List Char) :
    (Reading.block (previous == '*')).marked rest =
      (rest.take (blockRest previous rest)).map (·, Role.comment) ++ Reading.code.marked
      (rest.drop (blockRest previous rest)) := by
  induction rest generalizing previous with
  | nil => rfl
  | cons c rest ih =>
    rw [Reading.marked, blockRest]
    by_cases ends : previous = '*' ∧ c = '/'
    · simp [Reading.next, ends]
    · rw [if_neg ends, Nat.add_comm 1, List.take_succ_cons, List.drop_succ_cons, List.map_cons,
        List.cons_append, ← ih]
      have open_ : ((previous == '*') && c == '/') = false := by
        rw [Bool.eq_false_iff]
        intro both
        rw [Bool.and_eq_true, beq_iff_eq, beq_iff_eq] at both
        exact ends both
      simp only [Reading.next, open_, Bool.false_eq_true, if_false]

def Reading.within (quote : Char) : Reading := if quote = '\'' then .string else .identifier

theorem quoteRest_marked {quote : Char} (either : quote = '\'' ∨ quote = '"') (rest : List Char) :
    (Reading.within quote).marked rest =
      (rest.take (quoteRest quote rest)).map (·, Role.quoted) ++ Reading.code.marked
      (rest.drop (quoteRest quote rest)) := by
  have step (c : Char) (ahead : Option Char) : (Reading.within quote).next c ahead =
      (.quoted, if c = quote then .code else Reading.within quote) := by
    rcases either with rfl | rfl <;> rfl
  fun_induction quoteRest quote rest with
  | case1 => rfl
  | case2 rest d doubled ih =>
    obtain ⟨rfl, rfl⟩ := doubled
    rw [Reading.marked, step, if_pos rfl, Reading.marked, Nat.add_comm 2, List.take_succ_cons,
      List.take_succ_cons, List.drop_succ_cons,
      List.drop_succ_cons, List.map_cons, List.map_cons, List.cons_append, List.cons_append, ← ih]
    rfl
  | case3 rest d single =>
    rw [Reading.marked, step, if_pos rfl]
    rfl
  | case4 =>
    rw [Reading.marked, step, if_pos rfl]
    rfl
  | case5 c rest other ih =>
    rw [Reading.marked, step, if_neg other, Nat.add_comm 1, List.take_succ_cons,
      List.drop_succ_cons, List.map_cons, List.cons_append, ← ih]

theorem lineRest_le (rest : List Char) : lineRest rest ≤ rest.length := by
  induction rest with
  | nil => exact Nat.le_refl 0
  | cons c rest ih =>
    rw [lineRest, List.length_cons]
    split <;> omega

theorem blockRest_le (previous : Char) (rest : List Char) : blockRest previous rest ≤ rest.length := by
  induction rest generalizing previous with
  | nil => exact Nat.le_refl 0
  | cons c rest ih =>
    have more := ih c
    rw [blockRest, List.length_cons]
    split <;> omega

theorem quoteRest_le (quote : Char) (rest : List Char) : quoteRest quote rest ≤ rest.length := by
  fun_induction quoteRest quote rest <;> simp only [List.length_cons, List.length_nil] <;> omega

theorem word_marked {word : List Char} (unstopped : ∀ c ∈ word, isStop c = false) (after : List Char) :
    Reading.code.marked (word ++ after) = word.map (·, Role.code) ++ Reading.code.marked after ∨
      ∃ former d tail, Reading.code.marked (word ++ after) = former ++ (d, Role.comment) :: tail ∧
      former.length < word.length ∧
        ∀ m ∈ former, isWordPart m = true := by
  induction word with
  | nil => exact .inl rfl
  | cons c word ih =>
    have stopless := unstopped c List.mem_cons_self
    simp only [isStop, Bool.or_eq_false_iff, beq_eq_false_iff_ne] at stopless
    obtain ⟨⟨⟨space, tick⟩, double⟩, point⟩ := stopless
    rw [List.cons_append, Reading.marked]
    cases opened : Reading.opens c (word ++ after).head? with
    | true =>
      refine .inr ⟨[], c, (Reading.code.next c (word ++ after).head?).2.marked (word ++ after), ?_,
        Nat.succ_pos _, fun m member => ?_⟩
      · rw [Reading.next_opens opened]
        rfl
      · cases member
    | false =>
      rw [Reading.next_unopened tick double opened]
      rcases ih fun d member => unstopped d (.tail _ member) with all | ⟨former, d, tail,
        split, less, words⟩
      · exact .inl (by rw [all]; rfl)
      · refine .inr ⟨(c, .code) :: former, d, tail, by rw [split]; rfl, Nat.succ_lt_succ less,
          fun m member => ?_⟩
        rcases List.mem_cons.mp member with rfl | later
        · simp [isWordPart, space, point]
        · exact words m later

theorem tokenizeFrom_passing (start passing : Nat) (text : List Char) :
    tokenizeFrom start passing text = tokenizeFrom (start + passing) 0 (text.drop passing) := by
  induction passing generalizing start text with
  | zero => rfl
  | succ passing ih =>
    cases text with
    | nil => rfl
    | cons c rest =>
      rw [List.drop_succ_cons, show start + (passing + 1) = start + 1 + passing by omega, ← ih]
      rfl

/-- The scanner's tokens from `text` on are its tokens, just where no comment hugs a word. -/
def Scanned (start : Nat) (text : List Char) : Prop :=
  LaidOut start (Reading.code.marked text) (tokenizeFrom start 0 text) ↔
    hugged (Reading.code.marked text) = false

theorem scanned_gap {c : Char} {rest : List Char} {n : Nat} {role : Role}
    (passes : tokenizeFrom start 0 (c :: rest) = tokenizeFrom (start + 1) n rest)
    (reads : Reading.code.marked (c :: rest) = (c, role) :: (rest.take n).map (·, Role.comment) ++
      Reading.code.marked (rest.drop n))
    (gap : isGap (c, role) = true) (inside : n ≤ rest.length)
    (next : Scanned (start + 1 + n) (rest.drop n)) : Scanned start (c :: rest) := by
  have gaps : ∀ m ∈ (c, role) :: (rest.take n).map (·, Role.comment), isGap m = true := by
    intro m member
    rcases List.mem_cons.mp member with rfl | later
    · exact gap
    · obtain ⟨d, -, rfl⟩ := List.mem_map.mp later
      rfl
  have wordless : ∀ m ∈ (c, role) :: (rest.take n).map (·, Role.comment), isWordPart m = false := by
    intro m member
    have open_ := gaps m member
    obtain ⟨d, role'⟩ := m
    cases role' <;> simp_all [isGap, isWordPart]
  have length : ((c, role) :: (rest.take n).map (·, Role.comment)).length = 1 + n := by
    rw [List.length_cons, List.length_map, List.length_take]
    omega
  unfold Scanned
  rw [reads, passes, tokenizeFrom_passing, hugged_skip wordless, laid_gaps gaps, length,
    ← Nat.add_assoc]
  exact next

theorem scanned_token {c : Char} {rest : List Char} {n : Nat} {role : Role}
    (passes : tokenizeFrom start 0 (c :: rest) = ⟨c :: rest.take n, start, start + (1 + n)⟩ ::
      tokenizeFrom (start + 1) n rest)
    (reads : Reading.code.marked (c :: rest) = (c :: rest.take n).map (·, role) ++
      Reading.code.marked (rest.drop n))
    (spelling : Spelling ((c :: rest.take n).map (·, role)) (Reading.code.marked (rest.drop n)))
    (unhugged : hugged ((c :: rest.take n).map (·, role) ++ Reading.code.marked (rest.drop n)) =
      hugged (Reading.code.marked (rest.drop n)))
    (inside : n ≤ rest.length) (next : Scanned (start + 1 + n) (rest.drop n)) : Scanned start
      (c :: rest) := by
  have head : isGap (c, role) = false := spelling.ungapped List.mem_cons_self
  have length : ((c :: rest.take n).map (·, role)).length = 1 + n := by
    rw [List.length_map, List.length_cons, List.length_take]
    omega
  have laid := @laid_token start ((rest.take n).map (·, role)) (Reading.code.marked (rest.drop n))
    (tokenizeFrom (start + 1) n rest) (c, role) head
  rw [← List.map_cons (f := (·, role)), chars_map, length] at laid
  unfold Scanned
  rw [reads, passes, unhugged, laid, and_iff_right spelling, tokenizeFrom_passing, ← Nat.add_assoc]
  exact next

theorem tokenizeFrom_cons (start : Nat) (c : Char) (rest : List Char) :
    tokenizeFrom start 0 (c :: rest) =
      if isWhitespace c then tokenizeFrom (start + 1) 0 rest
      else if c = '-' ∧ rest.head? = some '-' then tokenizeFrom (start + 1) (lineRest rest) rest
      else if c = '/' ∧ rest.head? = some '*' then tokenizeFrom (start + 1)
        (1 + blockRest '\x00' rest.tail) rest
      else
        let more :=
          if c = '\'' ∨ c = '"' then quoteRest c rest
          else if isPoint c then 0
          else (rest.takeWhile (!isStop ·)).length
        ⟨c :: rest.take more, start, start + (1 + more)⟩ :: tokenizeFrom (start + 1) more rest := rfl

theorem isWordPart_unstopped {c : Char} (unstopped : isStop c = false) : isWordPart
      (c, .code) = true := by
  simp only [isStop, Bool.or_eq_false_iff] at unstopped
  simp [isWordPart, unstopped.1.1.1, unstopped.2]

theorem plain_of_point {c : Char} (point : isPoint c = true) : Reading.Plain c := by
  refine ⟨?_, ?_, ?_, ?_⟩ <;> rintro rfl <;> exact absurd point (by decide)

theorem stop_marked {after : List Char} (stops : ∀ c, after.head? = some c → isStop c = true)
    (m : Char × Role)
    (head : (Reading.code.marked after).head? = some m) : isWordPart m = false ∧ m.2 ≠ .comment := by
  cases after with
  | nil => cases head
  | cons c after =>
    rw [Reading.marked] at head
    obtain rfl := Option.some.inj head
    have stop := stops c rfl
    simp only [isStop, Bool.or_eq_true, beq_iff_eq] at stop
    rcases stop with ((space | rfl) | rfl) | point
    · rw [Reading.next_plain (plain_of_whitespace space)]
      simp [isWordPart, space]
    · exact ⟨rfl, fun same => by cases same⟩
    · exact ⟨rfl, fun same => by cases same⟩
    · rw [Reading.next_plain (plain_of_point point)]
      simp [isWordPart, point]

theorem word_split (rest : List Char) : ∃ more after, rest = more ++ after ∧
    rest.takeWhile (!isStop ·) = more ∧ (∀ c ∈ more, isStop c = false) ∧
      ∀ c, after.head? = some c → isStop c = true := by
  refine ⟨rest.takeWhile (!isStop ·), rest.dropWhile (!isStop ·),
    (List.takeWhile_append_dropWhile ..).symm, rfl, fun d member => ?_, fun d head => ?_⟩
  · have unstopped := List.mem_takeWhile_imp member
    simpa using unstopped
  · have ends := List.head?_dropWhile_not (!isStop ·) rest
    rw [head] at ends
    simpa using ends

section Word

variable {c : Char} {more after : List Char}

/-- A word that no comment hugs is a token. -/
theorem scanned_unhugged (unstopped : ∀ d ∈ c :: more, isStop d = false)
    (stops : ∀ d, after.head? = some d → isStop d = true)
    (passes : tokenizeFrom start 0 (c :: (more ++ after)) =
      ⟨c :: more, start, start + (1 + more.length)⟩ :: tokenizeFrom (start + 1) more.length
        (more ++ after))
    (reads : Reading.code.marked (c :: more ++ after) = (c :: more).map (·, Role.code) ++
      Reading.code.marked after)
    (next : Scanned (start + 1 + more.length) after) : Scanned start (c :: (more ++ after)) := by
  have ends := stop_marked stops
  refine @scanned_token start c (more ++ after) more.length .code ?_ ?_ ?_ ?_ ?_ ?_
  · rw [List.take_left]
    exact passes
  · rw [List.take_left, List.drop_left]
    exact reads
  · rw [List.take_left, List.drop_left]
    refine .word (List.cons_ne_nil _ _) (fun m member => ?_) fun m head => (ends m head).1
    obtain ⟨e, inside, rfl⟩ := List.mem_map.mp member
    exact isWordPart_unstopped (unstopped e inside)
  · rw [List.take_left, List.drop_left]
    refine hugged_code (fun m member => ?_) ?_
    · obtain ⟨e, -, rfl⟩ := List.mem_map.mp member
      rfl
    · cases head : (Reading.code.marked after).head? with
      | none => rfl
      | some m => exact beq_eq_false_iff_ne.mpr (ends m head).2
  · rw [List.length_append]
    omega
  · rw [List.drop_left]
    exact next

/-- No comment begins within a token. -/
theorem laid_uncommented {former tail : List (Char × Role)} {d : Char} {word : List Char}
    (less : former.length < word.length) :
    ¬LaidOut start (former ++ (d, .comment) :: tail)
      (⟨word, start, start + word.length⟩ :: tokens) := by
  rintro ⟨gap, run, rest, split, -, spelling, token_, -⟩
  obtain ⟨rfl, start_, -⟩ := Token.mk.inj token_
  obtain rfl : gap = [] := List.length_eq_zero_iff.mp (by omega)
  have within : former ++ [(d, .comment)] <+: run := by
    refine List.prefix_of_prefix_length_le ⟨tail, ?_⟩ ⟨rest, split.symm⟩ ?_
    · rw [List.append_assoc, List.singleton_append]
    · rw [List.length_append, ← chars_length run]
      exact less
  have gap := spelling.ungapped (within.subset (List.mem_append_right _ (List.mem_singleton.mpr rfl)))
  cases gap

theorem scanned_word {rest : List Char} (unstopped : isStop c = false)
    (unopened : Reading.opens c rest.head? = false)
    (passes : tokenizeFrom start 0 (c :: rest) =
      ⟨c :: rest.take (rest.takeWhile (!isStop ·)).length, start,
      start + (1 + (rest.takeWhile (!isStop ·)).length)⟩ :: tokenizeFrom (start + 1)
      (rest.takeWhile (!isStop ·)).length rest)
    (next : Scanned (start + 1 + (rest.takeWhile (!isStop ·)).length)
      (rest.drop (rest.takeWhile (!isStop ·)).length)) : Scanned start (c :: rest) := by
  obtain ⟨more, after, rfl, more_, unstopped', stops⟩ := word_split rest
  rw [more_] at passes next
  rw [List.take_left] at passes
  rw [List.drop_left] at next
  have unstopped_ : ∀ d ∈ c :: more, isStop d = false := List.forall_mem_cons.mpr
    ⟨unstopped, unstopped'⟩
  rcases word_marked unstopped_ after with reads | ⟨former, d, tail, reads, less, words⟩
  · exact scanned_unhugged unstopped_ stops passes reads next
  · have hugs : hugged (Reading.code.marked (c :: (more ++ after))) = true := by
      rw [← List.cons_append, reads]
      refine hugged_part ?_ words
      -- The first character is one of the word.
      rintro rfl
      obtain ⟨tick, double⟩ : c ≠ '\'' ∧ c ≠ '"' := by
        simp only [isStop, Bool.or_eq_false_iff, beq_eq_false_iff_ne] at unstopped
        exact ⟨unstopped.1.1.2, unstopped.1.2⟩
      rw [List.cons_append, Reading.marked, Reading.next_unopened tick double unopened] at reads
      cases (List.cons.inj reads).1
    refine iff_of_false (fun laid => ?_) fun unhugged => ?_
    · rw [passes, ← List.cons_append, reads, Nat.add_comm 1] at laid
      exact laid_uncommented less laid
    · rw [hugs] at unhugged
      cases unhugged

end Word

theorem scanned (text : List Char) : Scanned start text := by
  induction length : text.length using Nat.strong_induction_on generalizing text start with
  | _ n ih =>
    subst length
    cases text with
    | nil => exact iff_of_true (fun m member => by cases member) rfl
    | cons c rest =>
      have next (n start : Nat) : Scanned start (rest.drop n) := by
        refine ih _ ?_ _ rfl
        rw [List.length_drop, List.length_cons]
        omega
      have cons := tokenizeFrom_cons start c rest
      by_cases space : isWhitespace c = true
      · rw [if_pos space] at cons
        refine @scanned_gap start c rest 0 .code cons ?_ space (Nat.zero_le _) (next 0 _)
        rw [Reading.marked, Reading.next_plain (plain_of_whitespace space)]
        rfl
      rw [if_neg space] at cons
      by_cases line : c = '-' ∧ rest.head? = some '-'
      · rw [if_pos line] at cons
        refine @scanned_gap start c rest (lineRest rest) .comment cons ?_ rfl
          (lineRest_le rest) (next _ _)
        rw [Reading.marked, line.1, line.2, List.cons_append, ← lineRest_marked]
        rfl
      rw [if_neg line] at cons
      by_cases block : c = '/' ∧ rest.head? = some '*'
      · rw [if_pos block] at cons
        obtain ⟨rfl, ahead⟩ := block
        obtain ⟨rest, rfl⟩ := List.head?_eq_some_iff.mp ahead
        have inside := blockRest_le '\x00' rest
        refine @scanned_gap start '/' ('*' :: rest) (1 + blockRest '\x00' rest) .comment cons ?_
          rfl ?_ (next _ _)
        · rw [Reading.marked, Reading.marked, Nat.add_comm 1, List.take_succ_cons,
            List.drop_succ_cons, List.map_cons, List.cons_append,
            List.cons_append, ← blockRest_marked]
          rfl
        · rw [List.length_cons]
          omega
      rw [if_neg block] at cons
      have unopened : Reading.opens c rest.head? = false := by
        unfold Reading.opens
        rw [Bool.or_eq_false_iff, Bool.and_eq_false_iff, Bool.and_eq_false_iff]
        simp only [beq_eq_false_iff_ne]
        exact ⟨not_and_or.mp line, not_and_or.mp block⟩
      by_cases quote : c = '\'' ∨ c = '"'
      · simp only [if_pos quote] at cons
        refine @scanned_token start c rest (quoteRest c rest) .quoted cons ?_ ?_ ?_
          (quoteRest_le c rest) (next _ _)
        · rw [Reading.marked, List.map_cons, List.cons_append, ← quoteRest_marked quote]
          rcases quote with rfl | rfl <;> rfl
        · refine .quotation c quote rfl fun m member => ?_
          obtain ⟨d, -, rfl⟩ := List.mem_map.mp member
          rfl
        · refine hugged_skip fun m member => ?_
          obtain ⟨d, -, rfl⟩ := List.mem_map.mp member
          rfl
      simp only [if_neg quote] at cons
      by_cases point : isPoint c = true
      · simp only [if_pos point] at cons
        refine @scanned_token start c rest 0 .code cons ?_ ?_ ?_ (Nat.zero_le _) (next 0 _)
        · rw [Reading.marked, Reading.next_plain (plain_of_point point)]
          rfl
        · exact .point c point rfl
        · refine hugged_skip fun m member => ?_
          obtain rfl := List.mem_singleton.mp member
          simp [isWordPart, point]
      · simp only [if_neg point] at cons
        have unstopped : isStop c = false := by
          rw [not_or] at quote
          simp [isStop, space, quote.1, quote.2, point]
        exact scanned_word unstopped unopened cons (next _ _)

end Scan

end TallyDB
