import TallyDB.QueryLite.Search

/-!
# What the lifts take for a clause

The lifts take out the clause of a text that has one, leave alone a text that has none, and refuse a text
with two, or with a word that a clause starts with and no clause after it. So they do wherever the tokens
they look at are those of the text.
-/

namespace TallyDB

/-- The part `body` of the text is a knowledge-time clause. -/
def Clause (text head body tail : List (Char × Role)) (cut : Nat) : Prop :=
  ∃ words, Occurs text head body tail words ∧ AsOfWords words cut

/-- A text with a word of a clause that is none. -/
inductive Refused (text : List (Char × Role)) : Prop
  | bare {head body tail : List (Char × Role)} {asof : List Char}
        (stands : Occurs text head body tail [asof])
      (asof_ : Names asof "asof")
      (alone : ∀ body tail next, Occurs text head body tail [asof, next] →
        ¬Names next "join" ∧ ∀ cut, ¬Decimal next cut)
  | unnumbered {head body tail : List (Char × Role)} {for_ systemTime as of : List Char}
      (stands : Occurs text head body tail [for_, systemTime, as, of]) (for' : Names for_ "for")
      (systemTime_ : Names systemTime "system_time") (as_ : Names as "as") (of_ : Names of "of")
      (more : ∃ m ∈ tail, isGap m = false)
      (alone : ∀ body tail next cut, Occurs text head body tail [for_, systemTime, as, of, next] →
        ¬Decimal next cut)
  -- The two-word form, which reads as an alias.
  | aliased {head body tail : List (Char × Role)} {as of number : List Char} {cut : Nat}
      (stands : Occurs text head body tail [as, of, number]) (as_ : Names as "as") (of_ : Names of "of")
      (number_ : Decimal number cut)
      (alone : ∀ head body word, Occurs text head body tail [word, as, of, number] →
        ¬Names word "system_time")

/-- `ASOF` stands before a bare join. -/
def BareJoin (text : List (Char × Role)) : Prop :=
  ∃ head body tail asof join, Occurs text head body tail [asof, join] ∧ Names asof "asof" ∧
    Names join "join"

/-- After `head` the text has `ASOF` and a join of a kind. -/
def JoinOfKind (text head : List (Char × Role)) : Prop :=
  ∃ body tail asof kind join, Occurs text head body tail [asof, kind, join] ∧ Names asof "asof" ∧
    (Names kind "left" ∨ Names kind "inner") ∧ Names join "join"

/-- What the lift of the knowledge-time clause is for. -/
structure LiftsAsOf (text : List (Char × Role)) : Prop where
  untouched : extractAsOf (chars text) = .ok (none, none) ↔
    ¬Refused text ∧ ∀ head body tail cut, ¬Clause text head body tail cut
  lifted : ∀ out cut, extractAsOf (chars text) = .ok (some out, some cut) ↔
    ¬Refused text ∧ ∃ head body tail, Clause text head body tail cut ∧
      (∀ head' body' tail' cut', Clause text head' body' tail' cut' → head' = head) ∧
        out = chars head ++ chars tail
  either : ∀ answer, extractAsOf (chars text) = .ok answer →
    answer = (none, none) ∨ ∃ out cut, answer = (some out, some cut)

/-- What the lift of the word before a join is for. -/
structure LiftsJoin (text : List (Char × Role)) : Prop where
  untouched : extractAsofJoin (chars text) = .ok (none, false) ↔ ¬BareJoin text ∧ ∀ head,
    ¬JoinOfKind text head
  lifted : ∀ out, extractAsofJoin (chars text) = .ok (some out, true) ↔
    ¬BareJoin text ∧ ∃ head body tail asof, Occurs text head body tail [asof] ∧ JoinOfKind text head ∧
      (∀ head', JoinOfKind text head' → head' = head) ∧ out = chars head ++ chars tail
  either : ∀ answer, extractAsofJoin (chars text) = .ok answer →
    answer = (none, false) ∨ ∃ out, answer = (some out, true)

/-- The lifts look at the words, punctuation marks and quotations of the text, take out its clauses,
and nothing else. -/
structure Lifts (text : List (Char × Role)) : Prop where
  tokens : LaidOut 0 text (tokenizeWithSpans (chars text))
  asOf : LiftsAsOf text
  join : LiftsJoin text

variable {text head body tail : List (Char × Role)} {words : List (List Char)}
  {tokens : List Token} {n cut : Nat}

/-! ### From the text to its tokens -/

theorem AsOfWords.bare (knowledge : AsOfWords words cut) : ∀ word ∈ words, Bare word := by
  intro word member
  cases knowledge with
  | asof asof number =>
    simp only [List.mem_cons, List.not_mem_nil, or_false] at member
    rcases member with rfl | rfl
    · exact asof.bare (by decide)
    · exact number.bare
  | systemTime for_ systemTime as of number =>
    simp only [List.mem_cons, List.not_mem_nil, or_false] at member
    rcases member with rfl | rfl | rfl | rfl | rfl
    · exact for_.bare (by decide)
    · exact systemTime.bare (by decide)
    · exact as.bare (by decide)
    · exact of.bare (by decide)
    · exact number.bare

theorem behind_some {word : List Char} (there : (behind none tokens n).map Token.text = some word) :
    ∃ m token, n = m + 1 ∧ tokens[m]? = some token ∧ token.text = word := by
  cases n with
  | zero => cases there
  | succ m =>
    obtain ⟨token, here, text⟩ := Option.map_eq_some_iff.mp there
    exact ⟨m, token, rfl, here, text⟩

theorem drop_token {m : Nat} {token : Token} (here : tokens[m]? = some token) :
    tokens.drop m = token :: tokens.drop (m + 1) := by
  obtain ⟨inside, rfl⟩ := List.getElem?_eq_some_iff.mp here
  exact List.drop_eq_getElem_cons inside

theorem Occurs.tail_eq (stands : Occurs text head body tail words) : tail = text.drop
      (head.length + body.length) := by
  rw [stands.split, ← List.append_assoc, ← List.length_append, List.drop_left]

theorem Occurs.head_eq (stands : Occurs text head body tail words) : head = text.take head.length := by
  rw [stands.split, List.take_left]

/-- Some words and one word more before them end at the same place. -/
theorem Placed.tail_same {head' body' tail' : List (Char × Role)} {word : List Char} {m : Nat}
    (stands : Occurs text head body tail words) (placed : Placed 0 tokens n head body tail words)
    (stands' : Occurs text head' body' tail' (word :: words))
    (placed' : Placed 0 tokens m head' body' tail' (word :: words))
    (laid : LaidOut 0 text tokens) : tail = tail' ↔ n = m + 1 := by
  obtain ⟨last, there, stop⟩ := placed.last
  obtain ⟨last', there', stop'⟩ := placed'.last
  have some_ : words.length ≠ 0 := fun none_ => stands.spells.filled (List.length_eq_zero_iff.mp none_)
  rw [List.length_cons] at there'
  constructor
  · rintro rfl
    have whole := congrArg List.length stands.split
    have whole' := congrArg List.length stands'.split
    simp only [List.length_append] at whole whole'
    have place := laid.stop_unique there there' (by omega)
    omega
  · rintro rfl
    rw [show m + 1 + (words.length - 1) = m + (words.length + 1 - 1) by omega, there'] at there
    obtain rfl := Option.some.inj there
    rw [stands.tail_eq, stands'.tail_eq]
    congr 1
    omega

/-- What is left of the text is not all gaps just where there are more tokens. -/
theorem LaidOut.some_iff {start : Nat} (laid : LaidOut start text tokens) :
    (∃ m ∈ text, isGap m = false) ↔ tokens ≠ [] := by
  cases tokens with
  | nil =>
    refine iff_of_false ?_ fun filled => filled rfl
    rintro ⟨m, member, ungapped⟩
    rw [laid m member] at ungapped
    cases ungapped
  | cons token tokens =>
    refine iff_of_true ?_ (List.cons_ne_nil _ _)
    obtain ⟨gap, run, rest, rfl, -, spelling, -⟩ := laid
    obtain ⟨m, member⟩ := List.exists_mem_of_ne_nil run spelling.filled
    exact ⟨m, List.mem_append_left _ (List.mem_append_right _ member), spelling.ungapped member⟩

theorem Placed.more_iff {start : Nat} (placed : Placed start tokens n head body tail words) :
    (∃ m ∈ tail, isGap m = false) ↔ words.length < ((tokens.drop n).map Token.text).length := by
  rw [placed.laid.some_iff, Ne, List.drop_eq_nil_iff, List.length_map, List.length_drop]
  omega

/-- The words of a text that it is refused for are those of its tokens. -/
theorem Refused.inTokens (refused : Refused text) (laid : LaidOut 0 text tokens) :
    ∃ n, Refuses ((behind none tokens n).map Token.text) ((tokens.drop n).map Token.text) := by
  cases refused with
  | @bare head body tail asof stands asof_ alone =>
    obtain ⟨n, placed⟩ := stands.placed laid
    have follows {next : List Char} (reads : [asof, next] <+: (tokens.drop n).map Token.text)
        (bare : Bare next) : ∃ body tail, Occurs text head body tail [asof, next] := by
      refine (stands.reads_iff placed laid (List.cons_ne_nil _ _) ?_).mpr reads
      simp only [List.forall_mem_cons, List.not_mem_nil, false_imp_iff, implies_true, and_true]
      exact ⟨asof_.bare (by decide), bare⟩
    refine ⟨n, .bare placed.reads asof_ fun next reads => ⟨fun join => ?_, fun cut decimal => ?_⟩⟩
    · obtain ⟨body, tail, stands⟩ := follows reads (join.bare (by decide))
      exact (alone _ _ _ stands).1 join
    · obtain ⟨body, tail, stands⟩ := follows reads decimal.bare
      exact (alone _ _ _ stands).2 cut decimal
  | @unnumbered head body tail for_ systemTime as of stands for' systemTime_ as_ of_ more alone =>
    obtain ⟨n, placed⟩ := stands.placed laid
    refine ⟨n, .unnumbered placed.reads for' systemTime_ as_ of_ (placed.more_iff.mp more)
      fun next cut reads decimal => ?_⟩
    obtain ⟨body, tail, stands⟩ := (stands.reads_iff placed laid (List.cons_ne_nil _ _)
      (AsOfWords.systemTime for' systemTime_ as_ of_ decimal).bare).mpr reads
    exact alone _ _ _ cut stands decimal
  | @aliased head body tail as of number cut stands as_ of_ number_ alone =>
    obtain ⟨n, placed⟩ := stands.placed laid
    refine ⟨n, .aliased placed.reads as_ of_ number_ fun word there system => ?_⟩
    obtain ⟨m, token, rfl, here, rfl⟩ := behind_some there
    have reads : [token.text, as, of, number] <+: (tokens.drop m).map Token.text := by
      rw [drop_token here, List.map_cons]
      exact List.cons_prefix_cons.mpr ⟨rfl, placed.reads⟩
    have bare : ∀ word ∈ [token.text, as, of, number], Bare word := by
      simp only [List.forall_mem_cons, List.not_mem_nil, false_imp_iff, implies_true, and_true]
      exact ⟨system.bare (by decide), as_.bare (by decide), of_.bare (by decide), number_.bare⟩
    obtain ⟨head', body', tail', stands', placed'⟩ := laid.placed (List.cons_ne_nil _ _) bare reads
    obtain rfl := (placed.tail_same stands stands' placed' laid).mpr rfl
    exact alone _ _ _ stands' system

/-- The tokens that a text is refused for are words of it. -/
theorem Refuses.inText
    (refuses : Refuses ((behind none tokens n).map Token.text) ((tokens.drop n).map Token.text))
    (laid : LaidOut 0 text tokens) : Refused text := by
  cases refuses with
  | @bare asof reads asof_ alone =>
    have bare : ∀ word ∈ [asof], Bare word :=
      List.forall_mem_singleton.mpr (asof_.bare (by decide))
    obtain ⟨head, body, tail, stands, placed⟩ := laid.placed (List.cons_ne_nil _ _) bare reads
    exact .bare stands asof_ fun body' tail' next stands' => alone next (placed.reads_of laid stands')
  | @unnumbered for_ systemTime as of reads for' systemTime_ as_ of_ more alone =>
    have bare : ∀ word ∈ [for_, systemTime, as, of], Bare word := by
      simp only [List.forall_mem_cons, List.not_mem_nil, false_imp_iff, implies_true, and_true]
      exact ⟨for'.bare (by decide), systemTime_.bare (by decide), as_.bare (by decide),
        of_.bare (by decide)⟩
    obtain ⟨head, body, tail, stands, placed⟩ := laid.placed (List.cons_ne_nil _ _) bare reads
    exact .unnumbered stands for' systemTime_ as_ of_ (placed.more_iff.mpr more)
      fun body' tail' next cut stands' => alone next cut (placed.reads_of laid stands')
  | @aliased as of number cut reads as_ of_ number_ alone =>
    have bare : ∀ word ∈ [as, of, number], Bare word := by
      simp only [List.forall_mem_cons, List.not_mem_nil, false_imp_iff, implies_true, and_true]
      exact ⟨as_.bare (by decide), of_.bare (by decide), number_.bare⟩
    obtain ⟨head, body, tail, stands, placed⟩ := laid.placed (List.cons_ne_nil _ _) bare reads
    refine .aliased stands as_ of_ number_ fun head' body' word stands' => alone word ?_
    obtain ⟨m, placed'⟩ := stands'.placed laid
    obtain rfl := (placed.tail_same stands stands' placed' laid).mp rfl
    obtain ⟨token, here, -⟩ := placed'.first
    have reads' := placed'.reads
    rw [drop_token here, List.map_cons] at reads'
    rw [behind, here, (List.cons_prefix_cons.mp reads').1]
    rfl

/-- A text is refused just where some of its tokens are. -/
theorem refused_iff (laid : LaidOut 0 text tokens) :
    Refused text ↔ ∃ n, Refuses ((behind none tokens n).map Token.text)
      ((tokens.drop n).map Token.text) := by
  refine ⟨fun refused => refused.inTokens laid, ?_⟩
  rintro ⟨n, refuses⟩
  exact refuses.inText laid

/-! ### What the lifts do -/

theorem Occurs.spliced {first last : Token} (occurs : Occurs text head body tail words)
    (start : first.start = head.length)
    (stop : last.stop = head.length + body.length) : splice first last
      (chars text) = chars head ++ chars tail := by
  rw [splice, occurs.split, chars_append, chars_append, start, stop, ← chars_length head,
    List.take_left, ← chars_length body,
    ← List.length_append, ← List.append_assoc, List.drop_left]

/-- Words at the place of the same token begin at the same place. -/
theorem Placed.head_same {head' body' tail' : List (Char × Role)} {words' : List (List Char)}
    (occurs : Occurs text head body tail words) (placed : Placed 0 tokens n head body tail words)
    (occurs' : Occurs text head' body' tail' words')
    (placed' : Placed 0 tokens n head' body' tail' words') : head' = head := by
  obtain ⟨first, here, start⟩ := placed.first
  obtain ⟨first', here', start'⟩ := placed'.first
  obtain rfl := Option.some.inj (here.symm.trans here')
  rw [occurs.head_eq, occurs'.head_eq]
  congr 1
  omega

theorem AsOfWords.filled (asOf : AsOfWords words cut) : words ≠ [] := by
  cases asOf <;> exact List.cons_ne_nil _ _

/-- The search passes all tokens of a text without clauses. -/
theorem quiet_all (laid : LaidOut 0 text tokens) : (∀ n, QuietAt none tokens n) ↔
    ¬Refused text ∧ ∀ head body tail cut, ¬Clause text head body tail cut := by
  simp only [QuietAt, quiet_iff]
  rw [refused_iff laid, forall_and, not_exists]
  refine and_congr_right fun _ =>
    ⟨fun unread head body tail cut clause => ?_, fun unread n words cut asOf reads => ?_⟩
  · obtain ⟨words, occurs, asOf⟩ := clause
    obtain ⟨n, placed⟩ := occurs.placed laid
    exact unread n words cut asOf placed.reads
  · obtain ⟨head, body, tail, occurs, -⟩ := laid.placed asOf.filled asOf.bare reads
    exact unread head body tail cut ⟨words, occurs, asOf⟩

/-- The search stops at the one clause of a text that has one. -/
theorem only_clause (laid : LaidOut 0 text tokens) (out : List Char) :
    (∃ n first last, OnlyAt none tokens n cut first last ∧ out = splice first last (chars text)) ↔
      ¬Refused text ∧ ∃ head body tail, Clause text head body tail cut ∧
        (∀ head' body' tail' cut', Clause text head' body' tail' cut' → head' = head) ∧
        out = chars head ++ chars tail := by
  constructor
  · rintro ⟨n, first, last, only, rfl⟩
    obtain ⟨width, found⟩ := only.found
    obtain ⟨words, asOf, reads, rfl, there⟩ := asOfAt_words.mp ⟨found, only.read⟩
    rw [List.getElem?_drop] at there
    obtain ⟨head, body, tail, occurs, placed⟩ := laid.placed asOf.filled asOf.bare reads
    refine ⟨fun refused => ?_, head, body, tail, ⟨words, occurs, asOf⟩, ?_, ?_⟩
    · obtain ⟨m, refuses⟩ := (refused_iff laid).mp refused
      by_cases same : m = n
      · subst same
        exact asOf.unrefused reads refuses
      · exact (quiet_iff.mp (only.quiet m same)).1 refuses
    · rintro head' body' tail' cut' ⟨words', occurs', asOf'⟩
      obtain ⟨m, placed'⟩ := occurs'.placed laid
      by_cases same : m = n
      · subst same
        exact placed.head_same occurs occurs' placed'
      · exact absurd placed'.reads ((quiet_iff.mp (only.quiet m same)).2 words' cut' asOf')
    · obtain ⟨first', here, start⟩ := placed.first
      obtain ⟨last', here', stop⟩ := placed.last
      obtain rfl := Option.some.inj (only.first.symm.trans here)
      obtain rfl := Option.some.inj (there.symm.trans here')
      exact occurs.spliced (start.trans (Nat.zero_add _)) (by rw [stop, Nat.zero_add])
  · rintro ⟨unrefused, head, body, tail, ⟨words, occurs, asOf⟩, unique, rfl⟩
    obtain ⟨n, placed⟩ := occurs.placed laid
    obtain ⟨first, here, start⟩ := placed.first
    obtain ⟨last, here', stop⟩ := placed.last
    obtain ⟨found, read⟩ :=
      asOfAt_words.mpr ⟨words, asOf, placed.reads, rfl, by rw [List.getElem?_drop, here']⟩
    refine ⟨n, first, last,
      ⟨here, ⟨_, found⟩, read, fun m other =>
      quiet_iff.mpr ⟨fun refuses => ?_, fun words' cut' asOf' reads => ?_⟩⟩,
      (occurs.spliced (start.trans (Nat.zero_add _)) (by rw [stop, Nat.zero_add])).symm⟩
    · exact unrefused ((refused_iff laid).mpr ⟨m, refuses⟩)
    · obtain ⟨head', body', tail', occurs', placed'⟩ := laid.placed asOf'.filled asOf'.bare reads
      obtain rfl := unique head' body' tail' cut' ⟨words', occurs', asOf'⟩
      obtain ⟨first', there, start'⟩ := placed'.first
      exact other (laid.start_unique there here (start'.trans start.symm))

theorem lifts_asOf (laid : LaidOut 0 text (tokenizeWithSpans (chars text))) : LiftsAsOf text := by
  have none_ : asOfFrom none none 0 (tokenizeWithSpans (chars text)) = .ok none ↔
      ¬Refused text ∧ ∀ head body tail cut, ¬Clause text head body tail cut := by
    rw [asOfFrom_ok, ← quiet_all laid, Finds]
    simp
  have some_ (cut : Nat) (out : List Char) :
      (∃ first last, asOfFrom none none 0 (tokenizeWithSpans (chars text)) =
        .ok (some (cut, first, last)) ∧
        out = splice first last (chars text)) ↔
      ¬Refused text ∧ ∃ head body tail, Clause text head body tail cut ∧
        (∀ head' body' tail' cut', Clause text head' body' tail' cut' → head' = head) ∧
          out = chars head ++ chars tail := by
    rw [← only_clause laid out]
    simp only [asOfFrom_ok, Finds, reduceCtorEq, false_and, false_or]
    constructor
    · rintro ⟨first, last, ⟨n, cut', first', last', same, only⟩, out_⟩
      cases same
      exact ⟨n, first, last, only, out_⟩
    · rintro ⟨n, first, last, only, out_⟩
      exact ⟨first, last, ⟨n, cut, first, last, rfl, only⟩, out_⟩
  refine ⟨?_, fun out cut => ?_, fun answer same => ?_⟩
  · rw [← none_, extractAsOf]
    cases asOfFrom none none 0 (tokenizeWithSpans (chars text)) with
    | error e => exact iff_of_false (fun same => by cases same) fun same => by cases same
    | ok y =>
      cases y with
      | none => exact iff_of_true rfl rfl
      | some found => exact iff_of_false (fun same => by cases same) fun same => by cases same
  · rw [← some_, extractAsOf]
    cases asOfFrom none none 0 (tokenizeWithSpans (chars text)) with
    | error e => exact iff_of_false (fun same => by cases same) fun ⟨_, _, same, _⟩ => by cases same
    | ok y =>
      cases y with
      | none => exact iff_of_false (fun same => by cases same) fun ⟨_, _, same, _⟩ => by cases same
      | some found =>
        obtain ⟨cut', first, last⟩ := found
        constructor
        · intro same
          cases same
          exact ⟨first, last, rfl, rfl⟩
        · rintro ⟨first', last', same, rfl⟩
          cases same
          rfl
  · rw [extractAsOf] at same
    cases found : asOfFrom none none 0 (tokenizeWithSpans (chars text)) with
    | error e =>
      rw [found] at same
      cases same
    | ok y =>
      rw [found] at same
      cases y with
      | none =>
        cases same
        exact .inl rfl
      | some found =>
        cases same
        exact .inr ⟨_, _, rfl⟩

/-! ### What the lift of the join does -/

theorem joinNames_bare {asof join : List Char} (words : List (List Char)) (asof_ : Names asof "asof")
    (join_ : Names join "join") (others : ∀ word ∈ words, Names word "left" ∨ Names word "inner") :
    ∀ word ∈ asof :: (words ++ [join]), Bare word := by
  intro word member
  simp only [List.mem_cons, List.mem_append, List.not_mem_nil, or_false] at member
  rcases member with rfl | other | rfl
  · exact asof_.bare (by decide)
  · rcases others word other with left | inner
    · exact left.bare (by decide)
    · exact inner.bare (by decide)
  · exact join_.bare (by decide)

theorem bareJoin_iff (laid : LaidOut 0 text tokens) : BareJoin text ↔ ∃ n, joinAt
      (tokens.drop n) = some false := by
  simp only [joinAt_bare]
  constructor
  · rintro ⟨head, body, tail, asof, join, occurs, asof_, join_⟩
    obtain ⟨n, placed⟩ := occurs.placed laid
    exact ⟨n, asof, join, placed.reads, asof_, join_⟩
  · rintro ⟨n, asof, join, reads, asof_, join_⟩
    have bare := joinNames_bare [] asof_ join_ fun _ member => by cases member
    obtain ⟨head, body, tail, occurs, -⟩ := laid.placed (List.cons_ne_nil _ _) bare reads
    exact ⟨head, body, tail, asof, join, occurs, asof_, join_⟩

/-- A join is at the place of its first token. -/
theorem joins_iff (laid : LaidOut 0 text tokens) : JoinOfKind text head ↔
    ∃ n body tail asof, Occurs text head body tail [asof] ∧ Placed 0 tokens n head body tail [asof] ∧
      joinAt (tokens.drop n) = some true := by
  simp only [joinAt_kind]
  constructor
  · rintro ⟨body, tail, asof, kind, join, occurs, asof_, kind_, join_⟩
    obtain ⟨n, placed⟩ := occurs.placed laid
    have first : [asof] <+: (tokens.drop n).map Token.text :=
      (List.prefix_append [asof] [kind, join]).trans placed.reads
    obtain ⟨body', tail', occurs'⟩ :=
        (occurs.reads_iff placed laid (List.cons_ne_nil _ _) fun word member => by
      obtain rfl := List.mem_singleton.mp member
      exact asof_.bare (by decide)).mpr first
    obtain ⟨m, placed'⟩ := occurs'.placed laid
    obtain ⟨token, here, start⟩ := placed.first
    obtain ⟨token', there, start'⟩ := placed'.first
    obtain rfl := laid.start_unique here there (start.trans start'.symm)
    exact ⟨n, body', tail', asof, occurs', placed', asof, kind, join, placed.reads, asof_, kind_, join_⟩
  · rintro ⟨n, body, tail, asof', occurs, placed, asof, kind, join, reads, asof_, kind_, join_⟩
    obtain ⟨body', tail', occurs'⟩ := (occurs.reads_iff placed laid (List.cons_ne_nil _ _)
      (joinNames_bare [kind] asof_ join_ fun _ member => by
        rwa [List.mem_singleton.mp member])).mpr reads
    exact ⟨body', tail', asof, kind, join, occurs', asof_, kind_, join_⟩

theorem join_placed (laid : LaidOut 0 text tokens) (found : joinAt (tokens.drop n) = some true) :
    ∃ head body tail asof, Occurs text head body tail [asof] ∧
    Placed 0 tokens n head body tail [asof] := by
  obtain ⟨asof, kind, join, reads, asof_, -⟩ := joinAt_kind.mp found
  obtain ⟨head, body, tail, both⟩ := laid.placed (List.cons_ne_nil asof []) (fun word member => by
    obtain rfl := List.mem_singleton.mp member
    exact asof_.bare (by decide)) ((List.prefix_append [asof] [kind, join]).trans reads)
  exact ⟨head, body, tail, asof, both⟩

/-- The search passes all tokens of a text without joins of the kind. -/
theorem joinless_all (laid : LaidOut 0 text tokens) : (∀ n, joinAt (tokens.drop n) = none) ↔
    ¬BareJoin text ∧ ∀ head, ¬JoinOfKind text head := by
  constructor
  · intro quiet
    refine ⟨fun bare => ?_, fun head joins => ?_⟩
    · obtain ⟨n, found⟩ := (bareJoin_iff laid).mp bare
      rw [quiet n] at found
      cases found
    · obtain ⟨n, -, -, -, -, -, found⟩ := (joins_iff laid).mp joins
      rw [quiet n] at found
      cases found
  · rintro ⟨bare, joins⟩ n
    cases found : joinAt (tokens.drop n) with
    | none => rfl
    | some kind =>
      cases kind with
      | false => exact absurd ((bareJoin_iff laid).mpr ⟨n, found⟩) bare
      | true =>
        obtain ⟨head, body, tail, asof, occurs, placed⟩ := join_placed laid found
        exact absurd ((joins_iff laid).mpr ⟨n, body, tail, asof, occurs, placed, found⟩) (joins head)

theorem only_join (laid : LaidOut 0 text tokens) (out : List Char) :
    (∃ n token, tokens[n]? = some token ∧ joinAt (tokens.drop n) = some true ∧
      (∀ m, m ≠ n → joinAt (tokens.drop m) = none) ∧
      out = splice token token (chars text)) ↔
    ¬BareJoin text ∧ ∃ head body tail asof, Occurs text head body tail [asof] ∧ JoinOfKind text head ∧
      (∀ head', JoinOfKind text head' → head' = head) ∧ out = chars head ++ chars tail := by
  constructor
  · rintro ⟨n, token, here, found, quiet, rfl⟩
    obtain ⟨head, body, tail, asof, occurs, placed⟩ := join_placed laid found
    refine ⟨fun bare => ?_, head, body, tail, asof, occurs,
      (joins_iff laid).mpr ⟨n, body, tail, asof, occurs, placed, found⟩, ?_, ?_⟩
    · obtain ⟨m, found'⟩ := (bareJoin_iff laid).mp bare
      by_cases same : m = n
      · rw [same, found] at found'
        cases found'
      · rw [quiet m same] at found'
        cases found'
    · intro head' joins
      obtain ⟨m, body', tail', asof', occurs', placed', found'⟩ := (joins_iff laid).mp joins
      by_cases same : m = n
      · subst same
        exact placed.head_same occurs occurs' placed'
      · rw [quiet m same] at found'
        cases found'
    · obtain ⟨first, here', start⟩ := placed.first
      obtain ⟨last, there, stop⟩ := placed.last
      obtain rfl := Option.some.inj (here.symm.trans here')
      obtain rfl := Option.some.inj (here.symm.trans there)
      exact occurs.spliced (start.trans (Nat.zero_add _)) (by rw [stop, Nat.zero_add])
  · rintro ⟨bare, head, body, tail, asof, occurs, joins, unique, rfl⟩
    obtain ⟨n, body', tail', asof', occurs', placed', found⟩ := (joins_iff laid).mp joins
    obtain ⟨m, placed⟩ := occurs.placed laid
    obtain ⟨first, here, start⟩ := placed.first
    obtain ⟨last, there, stop⟩ := placed.last
    obtain rfl := Option.some.inj (here.symm.trans there)
    obtain ⟨first', here', start'⟩ := placed'.first
    obtain rfl := laid.start_unique here here' (start.trans start'.symm)
    refine ⟨m, first, here, found, fun k other => ?_,
      (occurs.spliced (start.trans (Nat.zero_add _)) (by rw [stop, Nat.zero_add])).symm⟩
    cases found' : joinAt (tokens.drop k) with
    | none => rfl
    | some kind =>
      cases kind with
      | false => exact absurd ((bareJoin_iff laid).mpr ⟨k, found'⟩) bare
      | true =>
        obtain ⟨head'', body'', tail'', asof'', occurs'', placed''⟩ := join_placed laid found'
        obtain rfl := unique head''
          ((joins_iff laid).mpr ⟨k, body'', tail'', asof'', occurs'', placed'', found'⟩)
        obtain ⟨first'', here'', start''⟩ := placed''.first
        exact absurd (laid.start_unique here'' here (start''.trans start.symm)) other

theorem lifts_join (laid : LaidOut 0 text (tokenizeWithSpans (chars text))) : LiftsJoin text := by
  have none_ : asofJoinFrom none (tokenizeWithSpans (chars text)) = .ok none ↔ ¬BareJoin text ∧
      ∀ head, ¬JoinOfKind text head := by
    rw [asofJoinFrom_ok, ← joinless_all laid]
    simp
  have some_ (out : List Char) :
      (∃ token, asofJoinFrom none (tokenizeWithSpans (chars text)) = .ok (some token) ∧
        out = splice token token (chars text)) ↔
      ¬BareJoin text ∧ ∃ head body tail asof, Occurs text head body tail [asof] ∧ JoinOfKind text head ∧
        (∀ head', JoinOfKind text head' → head' = head) ∧ out = chars head ++ chars tail := by
    rw [← only_join laid out]
    simp only [asofJoinFrom_ok, reduceCtorEq, false_and, false_or]
    constructor
    · rintro ⟨token, ⟨n, token', same, here, found, quiet⟩, out_⟩
      cases same
      exact ⟨n, token, here, found, quiet, out_⟩
    · rintro ⟨n, token, here, found, quiet, out_⟩
      exact ⟨token, ⟨n, token, rfl, here, found, quiet⟩, out_⟩
  refine ⟨?_, fun out => ?_, fun answer same => ?_⟩
  · rw [← none_, extractAsofJoin]
    cases asofJoinFrom none (tokenizeWithSpans (chars text)) with
    | error e => exact iff_of_false (fun same => by cases same) fun same => by cases same
    | ok y =>
      cases y with
      | none => exact iff_of_true rfl rfl
      | some found => exact iff_of_false (fun same => by cases same) fun same => by cases same
  · rw [← some_, extractAsofJoin]
    cases asofJoinFrom none (tokenizeWithSpans (chars text)) with
    | error e => exact iff_of_false (fun same => by cases same) fun ⟨_, same, _⟩ => by cases same
    | ok y =>
      cases y with
      | none => exact iff_of_false (fun same => by cases same) fun ⟨_, same, _⟩ => by cases same
      | some token =>
        constructor
        · intro same
          cases same
          exact ⟨token, rfl, rfl⟩
        · rintro ⟨token', same, rfl⟩
          cases same
          rfl
  · rw [extractAsofJoin] at same
    cases found : asofJoinFrom none (tokenizeWithSpans (chars text)) with
    | error e =>
      rw [found] at same
      cases same
    | ok y =>
      rw [found] at same
      cases y with
      | none =>
        cases same
        exact .inl rfl
      | some token =>
        cases same
        exact .inr ⟨_, rfl⟩

theorem Spells.code (spells : Spells words body) {word : List Char} (member : word ∈ words)
    {c : Char} (inside : c ∈ word) :
    (c, Role.code) ∈ body := by
  have letters {word : List Char} {run : List (Char × Role)} (here : Word word run) {c : Char}
    (inside : c ∈ word) :
      (c, Role.code) ∈ run := by
    rw [← here.spelled] at inside
    obtain ⟨m, member, rfl⟩ := List.mem_map.mp inside
    have part := here.part m member
    simp only [isWordPart, Bool.and_eq_true, beq_iff_eq] at part
    rw [← part.1.1]
    exact member
  induction spells with
  | last here =>
    obtain rfl := List.mem_singleton.mp member
    exact letters here inside
  | more here apart gaps next ih =>
    rcases List.mem_cons.mp member with rfl | later
    · exact List.mem_append_left _ (letters here inside)
    · exact List.mem_append_right _ (List.mem_append_right _ (ih later))

theorem Clause.digit (clause : Clause text head body tail cut) : ∃ c, c.isDigit = true ∧
    (c, Role.code) ∈ text := by
  obtain ⟨words, occurs, asOf⟩ := clause
  have number {word : List Char} (decimal : Decimal word cut) (member : word ∈ words) : ∃ c,
      c.isDigit = true ∧ (c, Role.code) ∈ text := by
    obtain ⟨digits, filled, all, word_, -⟩ := decimal
    obtain ⟨c, inside⟩ := List.exists_mem_of_ne_nil digits filled
    have inside' : c ∈ word := by
      rcases word_ with rfl | rfl
      · exact inside
      · exact List.mem_cons_of_mem _ inside
    refine ⟨c, all c inside, ?_⟩
    rw [occurs.split]
    exact List.mem_append_right _ (List.mem_append_left _ (occurs.spells.code member inside'))
  cases asOf with
  | asof asof decimal => exact number decimal (by simp)
  | systemTime for_ systemTime as of decimal => exact number decimal (by simp)

end TallyDB
