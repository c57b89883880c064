import Mathlib.Data.List.Pairwise
import TallyDB.QueryLite.Scan

/-!
# Words of a text

A word of a text is a run of code, as far as whitespace, punctuation, a quotation or a comment. `Occurs`
says that some words come one after the other in a text, and where. Among the tokens of the text it is
the same to have a run of tokens with these words.
-/

namespace TallyDB

structure Word (word : List Char) (run : List (Char × Role)) : Prop where
  filled : run ≠ []
  part : ∀ m ∈ run, isWordPart m = true
  spelled : chars run = word

/-- The text is these words, with a gap between any two. -/
inductive Spells : List (List Char) → List (Char × Role) → Prop
  | last {word : List Char} {run : List (Char × Role)} (here : Word word run) : Spells [word] run
  | more {word : List Char} {words : List (List Char)} {run gap rest : List (Char × Role)}
      (here : Word word run)
      (apart : gap ≠ []) (gaps : ∀ m ∈ gap, isGap m = true) (next : Spells words rest) :
      Spells (word :: words) (run ++ (gap ++ rest))

/-- The part `body` of the text is these words, and no more of a word is right before or after it.
-/
structure Occurs (text head body tail : List (Char × Role)) (words : List (List Char)) : Prop where
  split : text = head ++ (body ++ tail)
  spells : Spells words body
  before : ∀ m, head.getLast? = some m → isWordPart m = false
  after : ∀ m, tail.head? = some m → isWordPart m = false

variable {start n : Nat} {text head body tail : List (Char × Role)} {words : List (List Char)}
  {tokens : List Token}

/-! ### Runs -/

theorem Spells.filled (spells : Spells words body) : words ≠ [] := by
  cases spells <;> exact List.cons_ne_nil _ _

theorem Spells.begins (spells : Spells words body) : ∃ m rest, body = m :: rest ∧
    isWordPart m = true := by
  have first {word : List Char} {run : List (Char × Role)} (here : Word word run)
    (rest : List (Char × Role)) :
      ∃ m more, run ++ rest = m :: more ∧ isWordPart m = true := by
    cases run with
    | nil => exact absurd rfl here.filled
    | cons m run => exact ⟨m, run ++ rest, rfl, here.part m List.mem_cons_self⟩
  cases spells with
  | last here =>
    have found := first here []
    rwa [List.append_nil] at found
  | more here apart gaps next => exact first here _

theorem takeWhile_run {p : Char × Role → Bool} {run rest : List (Char × Role)}
    (all : ∀ m ∈ run, p m = true)
    (ends : ∀ m, rest.head? = some m → p m = false) : (run ++ rest).takeWhile p = run := by
  rw [List.takeWhile_append_of_pos all]
  cases rest with
  | nil => exact List.append_nil run
  | cons m rest => rw [List.takeWhile_cons, ends m rfl, if_neg Bool.false_ne_true, List.append_nil]

theorem run_unique {run run' rest rest' : List (Char × Role)} (same : run ++ rest = run' ++ rest')
    (all : ∀ m ∈ run, isWordPart m = true) (ends : ∀ m, rest.head? = some m → isWordPart m = false)
    (all' : ∀ m ∈ run', isWordPart m = true)
    (ends' : ∀ m, rest'.head? = some m → isWordPart m = false) :
    run = run' ∧ rest = rest' := by
  have here : run = run' := by rw [← takeWhile_run all ends, same, takeWhile_run all' ends']
  subst here
  exact ⟨rfl, List.append_cancel_left same⟩

theorem isGap_unworded {m : Char × Role} (gap : isGap m = true) : isWordPart m = false := by
  by_contra part
  rw [Bool.not_eq_false] at part
  rw [isWordPart_ungapped part] at gap
  cases gap

theorem Spelling.worded {m : Char × Role} {run rest : List (Char × Role)} (spelling : Spelling run rest)
    (member : m ∈ run) (part : isWordPart m = true) :
    (∀ m ∈ run, isWordPart m = true) ∧ ∀ m, rest.head? = some m → isWordPart m = false := by
  cases spelling with
  | quotation quote either opened quoted => simp [isWordPart, quoted m member] at part
  | point c point whole =>
    subst whole
    obtain rfl := List.mem_singleton.mp member
    simp [isWordPart, point] at part
  | word filled word ends => exact ⟨word, ends⟩

/-! ### Where words stand among the tokens -/

/-- The words are those of the tokens from the `n`-th on, which span `body`. -/
structure Placed (start : Nat) (tokens : List Token) (n : Nat) (head body tail : List (Char × Role))
    (words : List (List Char)) : Prop where
  first : ∃ token, tokens[n]? = some token ∧ token.start = start + head.length
  last : ∃ token, tokens[n + (words.length - 1)]? = some token ∧
    token.stop = start + head.length + body.length
  reads : words <+: (tokens.drop n).map Token.text
  laid : LaidOut (start + head.length + body.length) tail (tokens.drop (n + words.length))
  zero : (∀ m ∈ head, isGap m = true) ↔ n = 0

/-- What fails a predicate stands behind every run that meets it. -/
theorem behind_run {p : Char × Role → Prop} {m : Char × Role} {head more front back : List (Char × Role)}
    (same : head ++ m :: more = front ++ back) (all : ∀ m ∈ front, p m) (other : ¬ p m) :
    ∃ a, head = front ++ a ∧ back = a ++ m :: more := by
  rcases List.append_eq_append_iff.mp same with ⟨a, rfl, split⟩ | ⟨a, head_, split⟩
  · cases a with
    | nil => exact ⟨[], by simp, split.symm⟩
    | cons x a =>
      obtain ⟨rfl, -⟩ := List.cons.inj split
      exact absurd (all m (List.mem_append_right _ List.mem_cons_self)) other
  · exact ⟨a, head_, split⟩

section Placed

variable {gap run gap' body' : List (Char × Role)} {word : List Char} {text : List Char}

/-- The words of later tokens stand behind the first one. -/
theorem Placed.behind (placed : Placed (start + gap.length + run.length) tokens n head body tail words)
    (ungapped : ∃ m ∈ run, isGap m = false) :
    Placed start (⟨text, start + gap.length, start + gap.length + run.length⟩ :: tokens) (n + 1)
      (gap ++ (run ++ head)) body tail words := by
  obtain ⟨first, there, start_⟩ := placed.first
  obtain ⟨final, there', stop⟩ := placed.last
  have length : start + (gap ++ (run ++ head)).length = start + gap.length + run.length +
      head.length := by
    simp only [List.length_append]
    omega
  refine ⟨⟨first, there, ?_⟩, ⟨final, ?_, ?_⟩, placed.reads, ?_,
    iff_of_false (fun all => ?_) n.succ_ne_zero⟩
  · rw [length, start_]
  · rw [← there', Nat.add_right_comm n]
    rfl
  · rw [length, stop]
  · rw [length, Nat.add_right_comm n]
    exact placed.laid
  · obtain ⟨m, member, some⟩ := ungapped
    rw [all m (List.mem_append_right _ (List.mem_append_left _ member))] at some
    cases some

/-- The first token is one word. -/
theorem Placed.one (gaps : ∀ m ∈ gap, isGap m = true)
    (laid : LaidOut (start + gap.length + run.length) tail tokens) :
    Placed start (⟨chars run, start + gap.length, start + gap.length + run.length⟩ :: tokens) 0
      gap run tail [chars run] :=
  ⟨⟨_, rfl, rfl⟩, ⟨_, rfl, rfl⟩, ⟨tokens.map Token.text, rfl⟩, laid, iff_of_true gaps rfl⟩

/-- The first token is a word, and more words follow it. -/
theorem Placed.more (placed : Placed (start + gap.length + run.length) tokens 0 gap' body' tail words)
    (filled : words ≠ []) (gaps : ∀ m ∈ gap, isGap m = true) :
    Placed start (⟨chars run, start + gap.length, start + gap.length + run.length⟩ :: tokens) 0
      gap (run ++ (gap' ++ body')) tail (chars run :: words) := by
  obtain ⟨final, there, stop⟩ := placed.last
  have length : start + gap.length + (run ++ (gap' ++ body')).length =
      start + gap.length + run.length + gap'.length + body'.length := by
    simp only [List.length_append]
    omega
  have some_ : words.length ≠ 0 := mt List.length_eq_zero_iff.mp filled
  have index : 0 + ((chars run :: words).length - 1) = (0 + (words.length - 1)) + 1 := by
    rw [List.length_cons]
    omega
  refine ⟨⟨_, rfl, rfl⟩, ⟨final, ?_, ?_⟩, ?_, ?_, iff_of_true gaps rfl⟩
  · rw [← there, index]
    rfl
  · rw [stop, length]
  · exact List.cons_prefix_cons.mpr ⟨rfl, placed.reads⟩
  · have left := placed.laid
    rw [length]
    rw [Nat.zero_add] at left ⊢
    exact left

end Placed

/-- A word does not begin within a token that it is not the whole of. -/
theorem Occurs.behind {run rest head : List (Char × Role)} (spelling : Spelling run rest)
    (stands : Occurs text head body tail words) (filled : head ≠ [])
    (split : run ++ rest = head ++ (body ++ tail)) :
    ∃ b, head = run ++ b ∧ rest = b ++ (body ++ tail) := by
  obtain ⟨m, more, rfl, part⟩ := stands.spells.begins
  rcases List.append_eq_append_iff.mp split with ⟨b, head_, rest_⟩ | ⟨b, rfl, rest_⟩
  · exact ⟨b, head_, rest_⟩
  · cases b with
    | nil => exact ⟨[], by simp, rest_.symm⟩
    | cons y b =>
      obtain ⟨rfl, -⟩ := List.cons.inj rest_
      obtain ⟨word, -⟩ := spelling.worded (List.mem_append_right _ List.mem_cons_self) part
      have wordless := stands.before _ (List.getLast?_eq_some_getLast filled)
      rw [word _ (List.mem_append_left _ (List.getLast_mem _))] at wordless
      cases wordless

/-- Words that stand in a text are those of some of its tokens. -/
theorem Occurs.placed (stands : Occurs text head body tail words) (laid : LaidOut start text tokens) :
    ∃ n, Placed start tokens n head body tail words := by
  induction tokens generalizing start text head body words with
  | nil =>
    obtain ⟨m, rest, rfl, part⟩ := stands.spells.begins
    have gap := laid m (by rw [stands.split]; exact List.mem_append_right _ List.mem_cons_self)
    rw [isWordPart_ungapped part] at gap
    cases gap
  | cons token tokens ih =>
    obtain ⟨gap, run, rest, whole, gaps, spelling, rfl, laid⟩ := laid
    obtain ⟨m, more, body_, part⟩ := stands.spells.begins
    -- The gap before the first token holds no part of a word.
    obtain ⟨a, rfl, split⟩ : ∃ a, head = gap ++ a ∧ run ++ rest = a ++ (body ++ tail) := by
      rw [stands.split, List.append_assoc, body_] at whole
      have ungapped := isWordPart_ungapped part
      rw [body_]
      exact behind_run whole gaps (by rw [ungapped]; exact Bool.false_ne_true)
    cases a with
    | nil =>
      have member : m ∈ run := by
        cases run with
        | nil => exact absurd rfl spelling.filled
        | cons x run =>
          rw [body_] at split
          obtain ⟨rfl, -⟩ := List.cons.inj split
          exact List.mem_cons_self
      obtain ⟨word, ends⟩ := spelling.worded member part
      rw [List.append_nil] at stands ⊢
      rw [List.nil_append] at split
      cases stands.spells with
      | last here =>
        obtain ⟨rfl, rfl⟩ := run_unique split word ends here.part stands.after
        rw [← here.spelled]
        exact ⟨0, .one gaps laid⟩
      | @more word_ words run' gap' body' here apart gaps' next =>
        have ends' (m : Char × Role) (first : (gap' ++ (body' ++ tail)).head? = some m) :
            isWordPart m = false := by
          cases gap' with
          | nil => exact absurd rfl apart
          | cons x gap' =>
            obtain rfl := Option.some.inj first
            exact isGap_unworded (gaps' _ List.mem_cons_self)
        rw [List.append_assoc, List.append_assoc] at split
        obtain ⟨rfl, rfl⟩ := run_unique split word ends here.part ends'
        have later : Occurs (gap' ++ (body' ++ tail)) gap' body' tail words :=
          ⟨rfl, next, fun m final => isGap_unworded (gaps' m (List.mem_of_getLast? final)),
            stands.after⟩
        obtain ⟨n, placed⟩ := ih later laid
        obtain rfl := placed.zero.mp gaps'
        rw [← here.spelled]
        exact ⟨0, placed.more next.filled gaps⟩
    | cons x a =>
      obtain ⟨b, ab, rfl⟩ : ∃ b, x :: a = run ++ b ∧ rest = b ++ (body ++ tail) := by
        refine Occurs.behind spelling ⟨rfl, stands.spells, fun m final => stands.before m ?_,
          stands.after⟩ (List.cons_ne_nil x a) split
        rw [List.getLast?_append, final]
        rfl
      rw [ab] at stands ⊢
      have later : Occurs (b ++ (body ++ tail)) b body tail words := by
        refine ⟨rfl, stands.spells, fun m final => stands.before m ?_, stands.after⟩
        rw [List.getLast?_append, List.getLast?_append, final]
        rfl
      obtain ⟨n, placed⟩ := ih later laid
      obtain ⟨y, member⟩ := List.exists_mem_of_ne_nil run spelling.filled
      exact ⟨n + 1, placed.behind ⟨y, member, spelling.ungapped member⟩⟩

/-! ### Which tokens are words -/

/-- The word starts neither with a quote nor with a punctuation mark. -/
def Bare (word : List Char) : Prop := ∀ c, word.head? = some c → c ≠ '\'' ∧ c ≠ '"' ∧ isPoint c = false

theorem Spelling.bare {run rest : List (Char × Role)} (spelling : Spelling run rest)
    (bare : Bare (chars run)) :
    Word (chars run) run ∧ ∀ m, rest.head? = some m → isWordPart m = false := by
  cases spelling with
  | quotation quote either opened quoted =>
    obtain ⟨tick, double, -⟩ := bare quote (by rw [chars, List.head?_map, opened]; rfl)
    rcases either with rfl | rfl
    · exact absurd rfl tick
    · exact absurd rfl double
  | point c point whole =>
    subst whole
    rw [(bare c rfl).2.2] at point
    cases point
  | word filled word ends => exact ⟨⟨filled, word, rfl⟩, ends⟩

theorem LaidOut.stands (laid : LaidOut start text tokens) (some_ : words ≠ [])
    (bare : ∀ word ∈ words, Bare word)
    (reads : words <+: (tokens.drop n).map Token.text) :
    ∃ head body tail token, Occurs text head body tail words ∧ tokens[n]? = some token ∧
      token.start = start + head.length ∧ (n = 0 → ∀ m ∈ head, isGap m = true) := by
  induction tokens generalizing start text n words with
  | nil =>
    rw [List.drop_nil] at reads
    exact absurd (List.prefix_nil.mp reads) some_
  | cons token tokens ih =>
    obtain ⟨gap, run, rest, rfl, gaps, spelling, rfl, laid⟩ := laid
    cases n with
    | zero =>
      cases words with
      | nil => exact absurd rfl some_
      | cons word words =>
        rw [List.drop_zero, List.map_cons] at reads
        obtain ⟨rfl, others⟩ := List.cons_prefix_cons.mp reads
        obtain ⟨here, ends⟩ := spelling.bare (bare _ List.mem_cons_self)
        have before (m : Char × Role) (final : gap.getLast? = some m) : isWordPart m = false :=
          isGap_unworded (gaps m (List.mem_of_getLast? final))
        cases words with
        | nil =>
            exact ⟨gap, run, rest, _, ⟨List.append_assoc .., .last here, before, ends⟩, rfl,
              rfl, fun _ => gaps⟩
        | cons next words =>
          obtain ⟨head, body, tail, token, stands, -, -, zero⟩ :=
            ih (n := 0) laid (List.cons_ne_nil _ _)
              (fun word member => bare word (.tail _ member)) others
          have apart : head ≠ [] := by
            rintro rfl
            obtain ⟨m, more, rfl, part⟩ := stands.spells.begins
            rw [ends m (by rw [stands.split]; rfl)] at part
            cases part
          refine ⟨gap, run ++ (head ++ body), tail, _,
            ⟨?_, .more here apart (zero rfl) stands.spells, before, stands.after⟩,
            rfl, rfl, fun _ => gaps⟩
          rw [stands.split]
          simp only [List.append_assoc]
    | succ n =>
      obtain ⟨head, body, tail, token, stands, there, start_, -⟩ := ih laid some_ bare reads
      refine ⟨gap ++ (run ++ head), body, tail, token,
        ⟨?_, stands.spells, fun m final => ?_, stands.after⟩, there, ?_,
        fun zero => absurd zero n.succ_ne_zero⟩
      · rw [stands.split]
        simp only [List.append_assoc]
      · rw [List.getLast?_append, List.getLast?_append] at final
        cases last : head.getLast? with
        | some x =>
          rw [last] at final
          obtain rfl := Option.some.inj final
          exact stands.before _ last
        | none =>
          -- The words come right after the token, which is then no word.
          obtain rfl := List.getLast?_eq_none_iff.mp last
          obtain ⟨x, more, body_, part⟩ := stands.spells.begins
          rw [last, List.getLast?_eq_some_getLast spelling.filled] at final
          obtain rfl := Option.some.inj final
          by_contra worded
          rw [Bool.not_eq_false] at worded
          have ends := (spelling.worded (List.getLast_mem _) worded).2 x
            (by rw [stands.split, body_]; rfl)
          rw [ends] at part
          cases part
      · simp only [start_, List.length_append]
        omega

/-! ### One place, one token -/

theorem LaidOut.ordered (laid : LaidOut start text tokens) :
    (∀ token ∈ tokens, start ≤ token.start ∧ token.start < token.stop) ∧
      tokens.Pairwise fun token later => token.stop ≤ later.start := by
  induction tokens generalizing start text with
  | nil => exact ⟨fun _ member => (by cases member), .nil⟩
  | cons token tokens ih =>
    obtain ⟨gap, run, rest, -, -, spelling, rfl, laid⟩ := laid
    obtain ⟨inside, pairwise⟩ := ih laid
    have some_ := List.length_pos_iff.mpr spelling.filled
    refine ⟨fun other member => ?_, pairwise.cons fun other member => (inside other member).1⟩
    rcases List.mem_cons.mp member with rfl | later
    · simp only
      omega
    · have far := inside other later
      omega

theorem LaidOut.apart (laid : LaidOut start text tokens) {i j : Nat} {a b : Token}
    (here : tokens[i]? = some a)
    (there : tokens[j]? = some b) (less : i < j) : a.start < b.start ∧ a.stop < b.stop := by
  obtain ⟨inside, pairwise⟩ := laid.ordered
  obtain ⟨i_, rfl⟩ := List.getElem?_eq_some_iff.mp here
  obtain ⟨j_, rfl⟩ := List.getElem?_eq_some_iff.mp there
  have between := List.pairwise_iff_getElem.mp pairwise i j i_ j_ less
  have a_ := (inside _ (List.getElem_mem i_)).2
  have b_ := (inside _ (List.getElem_mem j_)).2
  omega

theorem LaidOut.start_unique (laid : LaidOut start text tokens) {i j : Nat} {a b : Token}
    (here : tokens[i]? = some a)
    (there : tokens[j]? = some b) (same : a.start = b.start) : i = j := by
  rcases Nat.lt_trichotomy i j with less | equal | more
  · exact absurd same (laid.apart here there less).1.ne
  · exact equal
  · exact absurd same (laid.apart there here more).1.ne'

theorem LaidOut.stop_unique (laid : LaidOut start text tokens) {i j : Nat} {a b : Token}
    (here : tokens[i]? = some a)
    (there : tokens[j]? = some b) (same : a.stop = b.stop) : i = j := by
  rcases Nat.lt_trichotomy i j with less | equal | more
  · exact absurd same (laid.apart here there less).2.ne
  · exact equal
  · exact absurd same (laid.apart there here more).2.ne'

theorem LaidOut.placed (laid : LaidOut start text tokens) (some_ : words ≠ [])
    (bare : ∀ word ∈ words, Bare word)
    (reads : words <+: (tokens.drop n).map Token.text) :
    ∃ head body tail, Occurs text head body tail words ∧
    Placed start tokens n head body tail words := by
  obtain ⟨head, body, tail, token, stands, here, start_, -⟩ := laid.stands some_ bare reads
  obtain ⟨m, placed⟩ := stands.placed laid
  obtain ⟨first, there, first_⟩ := placed.first
  obtain rfl := laid.start_unique here there (start_.trans first_.symm)
  exact ⟨head, body, tail, stands, placed⟩

theorem Placed.reads_of {body' tail' : List (Char × Role)} {words' : List (List Char)}
    (placed : Placed start tokens n head body tail words)
    (laid : LaidOut start text tokens) (stands' : Occurs text head body' tail' words') :
    words' <+: (tokens.drop n).map Token.text := by
  obtain ⟨first, here, start_⟩ := placed.first
  obtain ⟨m, placed'⟩ := stands'.placed laid
  obtain ⟨first', there, start'⟩ := placed'.first
  obtain rfl := laid.start_unique here there (start_.trans start'.symm)
  exact placed'.reads

/-- Which other words stand at the place of some, their tokens say. -/
theorem Occurs.reads_iff {words' : List (List Char)} (stands : Occurs text head body tail words)
    (placed : Placed start tokens n head body tail words) (laid : LaidOut start text tokens)
    (some_ : words' ≠ [])
    (bare : ∀ word ∈ words', Bare word) :
    (∃ body tail, Occurs text head body tail words') ↔ words' <+: (tokens.drop n).map Token.text := by
  obtain ⟨first, here, start_⟩ := placed.first
  constructor
  · rintro ⟨body', tail', stands'⟩
    exact placed.reads_of laid stands'
  · intro reads
    obtain ⟨head', body', tail', stands', placed'⟩ := laid.placed some_ bare reads
    obtain ⟨first', there, start'⟩ := placed'.first
    obtain rfl := Option.some.inj (here.symm.trans there)
    have same : head = head' :=
      List.append_inj_left (stands.split.symm.trans stands'.split) (by omega)
    exact ⟨body', tail', same ▸ stands'⟩

end TallyDB
