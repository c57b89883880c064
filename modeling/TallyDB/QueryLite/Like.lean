import TallyDB.QueryLite.Predicate

/-!
# The LIKE matcher

`Like` is the language of a pattern. The matcher takes a `%` of the pattern that stands on a
`%` of the text for that character, so it accepts a smaller language, `LikeTaking`.
-/

namespace TallyDB

/-- The texts of a pattern. -/
inductive Like : List Char → List Char → Prop where
  | nil : Like [] []
  | percent (run : List Char) {pattern text : List Char} (rest : Like pattern text) :
      Like ('%' :: pattern) (run ++ text)
  | underscore (c : Char) {pattern text : List Char} (rest : Like pattern text) :
      Like ('_' :: pattern) (c :: text)
  | literal {c : Char} {pattern text : List Char} (plain : c ≠ '%' ∧ c ≠ '_')
      (rest : Like pattern text) : Like (c :: pattern) (c :: text)

/-- The texts of a pattern, where a `%` in front of a `%` of the text takes just that. -/
inductive LikeTaking : List Char → List Char → Prop where
  | nil : LikeTaking [] []
  | percent (run : List Char) {pattern text : List Char} (free : (run ++ text).head? ≠ some '%')
      (rest : LikeTaking pattern text) :
      LikeTaking ('%' :: pattern) (run ++ text)
  | percentHere {pattern text : List Char} (rest : LikeTaking pattern text) :
      LikeTaking ('%' :: pattern) ('%' :: text)
  | underscore (c : Char) {pattern text : List Char} (rest : LikeTaking pattern text) :
      LikeTaking ('_' :: pattern) (c :: text)
  | literal {c : Char} {pattern text : List Char} (plain : c ≠ '%' ∧ c ≠ '_')
      (rest : LikeTaking pattern text) :
      LikeTaking (c :: pattern) (c :: text)

theorem LikeTaking.like {pattern text : List Char} (taking : LikeTaking pattern text) :
    Like pattern text := by
  induction taking with
  | nil => exact .nil
  | percent run _ _ ih => exact .percent run ih
  | percentHere _ ih => exact .percent ['%'] ih
  | underscore c _ ih => exact .underscore c ih
  | literal plain _ ih => exact .literal plain ih

/-- Without a `%` in the text the two languages are one. -/
theorem Like.taking {pattern text : List Char} (like : Like pattern text) (clean : '%' ∉ text) :
    LikeTaking pattern text := by
  induction like with
  | nil => exact .nil
  | percent run _ ih =>
    refine .percent run ?_ (ih fun member => clean (List.mem_append_right _ member))
    intro head
    exact clean (List.mem_of_mem_head? head)
  | underscore c _ ih => exact .underscore c (ih fun member => clean (List.mem_cons_of_mem _ member))
  | literal plain _ ih => exact .literal plain (ih fun member => clean (List.mem_cons_of_mem _ member))

namespace LikeTaking

/-! ### What a match starts with -/

theorem nil_right {pattern : List Char} : LikeTaking pattern [] ↔ ∀ c ∈ pattern, c = '%' := by
  constructor
  · intro taking
    generalize none_ : ([] : List Char) = text at taking
    induction taking with
    | nil => simp
    | percent run _ _ ih =>
      obtain ⟨-, rfl⟩ := List.append_eq_nil_iff.mp none_.symm
      intro c member
      rcases List.mem_cons.mp member with rfl | member
      · rfl
      · exact ih rfl c member
    | percentHere => cases none_
    | underscore => cases none_
    | literal => cases none_
  · intro all
    induction pattern with
    | nil => exact .nil
    | cons c pattern ih =>
      obtain rfl := all c List.mem_cons_self
      exact .percent [] (by simp) (ih fun other member => all other (List.mem_cons_of_mem _ member))

theorem of_percent {pattern text : List Char} (taking : LikeTaking ('%' :: pattern) text) : ∃ k,
    LikeTaking pattern (text.drop k) := by
  cases taking with
  | percent run _ rest => exact ⟨run.length, by rwa [List.drop_left]⟩
  | percentHere rest => exact ⟨1, rest⟩
  | literal plain => exact absurd rfl plain.1

/-- A `%` that no `%` faces takes any run. -/
theorem percent_drop {pattern text : List Char} (free : text.head? ≠ some '%') {k : Nat}
    (rest : LikeTaking pattern (text.drop k)) :
    LikeTaking ('%' :: pattern) text := by
  have whole := List.take_append_drop k text
  rw [← whole] at free ⊢
  exact .percent _ free rest

/-- A character that the pattern's own meets. -/
def Meets (c x : Char) : Prop := c = '_' ∨ c = x

theorem cons_iff {c x : Char} {pattern text : List Char} (meets : Meets c x) :
    LikeTaking (c :: pattern) (x :: text) ↔ LikeTaking pattern text := by
  constructor
  · intro taking
    generalize same : x :: text = whole at taking
    cases taking with
    | percent run free rest =>
      rcases meets with wrong | rfl
      · cases wrong
      · rw [← same] at free
        exact absurd rfl free
    | percentHere rest =>
      cases same
      exact rest
    | underscore _ rest =>
      cases same
      exact rest
    | literal _ rest =>
      cases same
      exact rest
  · intro rest
    rcases meets with rfl | rfl
    · exact .underscore x rest
    · by_cases percent : c = '%'
      · subst percent
        exact .percentHere rest
      · by_cases underscore : c = '_'
        · subst underscore
          exact .underscore _ rest
        · exact .literal ⟨percent, underscore⟩ rest

theorem append_iff {segment run pattern text : List Char} (meets : List.Forall₂ Meets segment run) :
    LikeTaking (segment ++ pattern) (run ++ text) ↔ LikeTaking pattern text := by
  induction meets with
  | nil => exact Iff.rfl
  | cons first _ ih => exact (cons_iff first).trans ih

/-- A later start leaves off no earlier. -/
theorem later {segment run pattern text : List Char} (meets : List.Forall₂ Meets segment run) {k : Nat}
    (taking : LikeTaking (segment ++ pattern) ((run ++ text).drop k)) : ∃ k', LikeTaking pattern
      (text.drop k') := by
  induction meets generalizing k with
  | nil => exact ⟨k, taking⟩
  | @cons c x segment run first meets ih =>
    cases k with
    | zero => exact ih (k := 0) ((cons_iff first).mp taking)
    | succ k =>
      rw [List.cons_append, List.cons_append, List.drop_succ_cons] at taking
      generalize same : (run ++ text).drop k = whole at taking
      cases taking with
      | percent skipped _ rest =>
          exact ih (k := k + skipped.length) (by rwa [← List.drop_drop, same, List.drop_left])
      | percentHere rest =>
          exact ih (k := k + 1) (by rwa [← List.drop_drop, same, List.drop_one, List.tail_cons])
      | underscore _ rest =>
          exact ih (k := k + 1) (by rwa [← List.drop_drop, same, List.drop_one, List.tail_cons])
      | literal _ rest =>
          exact ih (k := k + 1) (by rwa [← List.drop_drop, same, List.drop_one, List.tail_cons])

end LikeTaking

/-! ### The loop -/

variable {pattern text : List Char}

/-- The pattern from `q` on meets the text from `t` on, up to `p` and `s`. -/
def Trying (pattern text : List Char) (q t p s : Nat) : Prop :=
  ∃ segment run, pattern.drop q = segment ++ pattern.drop p ∧ text.drop t = run ++ text.drop s ∧
    List.Forall₂ LikeTaking.Meets segment run

theorem Trying.refl (p s : Nat) : Trying pattern text p s p s := ⟨[], [], rfl, rfl, .nil⟩

theorem Trying.advance {q t p s : Nat} {c x : Char} (trying : Trying pattern text q t p s)
    (here : pattern[p]? = some c)
    (there : text[s]? = some x) (meets : LikeTaking.Meets c x) : Trying pattern text q t
      (p + 1) (s + 1) := by
  obtain ⟨segment, run, first, second, all⟩ := trying
  obtain ⟨inside, rfl⟩ := List.getElem?_eq_some_iff.mp here
  obtain ⟨inside', rfl⟩ := List.getElem?_eq_some_iff.mp there
  refine ⟨segment ++ [pattern[p]], run ++ [text[s]], ?_, ?_, List.rel_append all (.cons meets .nil)⟩
  · rw [first, List.append_assoc, List.singleton_append, ← List.drop_eq_getElem_cons inside]
  · rw [second, List.append_assoc, List.singleton_append, ← List.drop_eq_getElem_cons inside']

/-- What the loop looks for: a match here, or from the last `%` on. -/
def Sought (pattern text : List Char) (p s : Nat) (star : Option (Star s)) : Prop :=
  match star with
  | none => LikeTaking (pattern.drop p) (text.drop s)
  | some at_ => ∃ k, LikeTaking (pattern.drop at_.pattern) ((text.drop at_.text).drop k)

/-- The attempt since the last `%` has met the text so far. -/
def Attempt (pattern text : List Char) (p s : Nat) (star : Option (Star s)) : Prop :=
  match star with
  | none => True
  | some at_ => Trying pattern text at_.pattern at_.text p s

theorem Sought.of_here {p s : Nat} {star : Option (Star s)} (attempt : Attempt pattern text p s star)
    (here : LikeTaking (pattern.drop p) (text.drop s)) : Sought pattern text p s star := by
  cases star with
  | none => exact here
  | some at_ =>
    obtain ⟨segment, run, first, second, meets⟩ := attempt
    refine ⟨0, ?_⟩
    rw [List.drop_zero, first, second]
    exact (LikeTaking.append_iff meets).mpr here

theorem Sought.later {p s : Nat} {star : Option (Star s)} (attempt : Attempt pattern text p s star)
    (sought : Sought pattern text p s star) : ∃ k, LikeTaking (pattern.drop p)
      ((text.drop s).drop k) := by
  cases star with
  | none => exact ⟨0, sought⟩
  | some at_ =>
    obtain ⟨segment, run, first, second, meets⟩ := attempt
    obtain ⟨k, taking⟩ := sought
    rw [first, second] at taking
    exact LikeTaking.later meets taking

theorem not_taking {p s : Nat} (inText : s < text.length)
    (apart : ¬(p < pattern.length ∧ (pattern[p]? = some '_' ∨ pattern[p]? = text[s]?)))
    (plain : ¬(p < pattern.length ∧ pattern[p]? = some '%')) : ¬ LikeTaking (pattern.drop p)
      (text.drop s) := by
  intro taking
  rw [List.drop_eq_getElem_cons inText] at taking
  by_cases inside : p < pattern.length
  · rw [List.drop_eq_getElem_cons inside] at taking
    rw [List.getElem?_eq_getElem inside] at apart plain
    rw [List.getElem?_eq_getElem inText] at apart
    generalize pattern[p] = c at taking apart plain
    generalize same : text[s] :: text.drop (s + 1) = whole at taking
    cases taking with
    | percent => exact plain ⟨inside, rfl⟩
    | percentHere => exact plain ⟨inside, rfl⟩
    | underscore => exact apart ⟨inside, .inl rfl⟩
    | literal =>
      cases same
      exact apart ⟨inside, .inr rfl⟩
  · rw [List.drop_eq_nil_of_le (Nat.le_of_not_lt inside)] at taking
    cases taking

theorem likeLoop_iff (p s : Nat) (star : Option (Star s)) (attempt : Attempt pattern text p s star) :
    likeLoop pattern text p s star = true ↔ Sought pattern text p s star := by
  fun_induction likeLoop pattern text p s star with
  | case1 p s star inText here ih =>
    obtain ⟨inside, meets⟩ := here
    have own := List.getElem?_eq_getElem inside
    have there := List.getElem?_eq_getElem inText
    have meets : LikeTaking.Meets pattern[p] text[s] := by
      rw [own, there] at meets
      exact meets.imp Option.some.inj Option.some.inj
    cases star with
    | none =>
      refine (ih trivial).trans ?_
      show LikeTaking _ _ ↔ LikeTaking _ _
      rw [List.drop_eq_getElem_cons inside, List.drop_eq_getElem_cons inText, LikeTaking.cons_iff meets]
    | some at_ => exact ih (Trying.advance attempt own there meets)
  | case2 p s star inText apart percent ih =>
    obtain ⟨inside, percent⟩ := percent
    have start : Attempt pattern text (p + 1) s (some ⟨p + 1, s, le_rfl⟩) := Trying.refl _ _
    have first : pattern.drop p = '%' :: pattern.drop (p + 1) := by
      rw [List.getElem?_eq_getElem inside] at percent
      rw [List.drop_eq_getElem_cons inside, Option.some.inj percent]
    have free : (text.drop s).head? ≠ some '%' := by
      rw [List.head?_drop]
      intro same
      exact apart ⟨inside, .inr (percent.trans same.symm)⟩
    refine (ih start).trans ⟨?_, ?_⟩
    · rintro ⟨k, taking⟩
      refine .of_here attempt ?_
      rw [first]
      exact LikeTaking.percent_drop free taking
    · intro sought
      obtain ⟨k, taking⟩ := sought.later attempt
      rw [first] at taking
      obtain ⟨k', rest⟩ := LikeTaking.of_percent taking
      refine ⟨k + k', ?_⟩
      have shift : ((text.drop s).drop k).drop k' = (text.drop s).drop (k + k') := List.drop_drop
      rw [shift] at rest
      exact rest
  | case3 p s inText apart plain at_ ih =>
    have stuck := not_taking inText apart plain
    have start : Attempt pattern text at_.pattern (at_.text + 1)
      (some ⟨at_.pattern, at_.text + 1, le_rfl⟩) := Trying.refl _ _
    refine (ih start).trans ?_
    obtain ⟨segment, run, first, second, meets⟩ := attempt
    constructor
    · rintro ⟨k, taking⟩
      refine ⟨k + 1, ?_⟩
      rw [List.drop_drop] at taking ⊢
      rwa [Nat.add_right_comm] at taking
    · rintro ⟨k, taking⟩
      cases k with
      | zero =>
        rw [List.drop_zero, first, second, LikeTaking.append_iff meets] at taking
        exact absurd taking stuck
      | succ k =>
        refine ⟨k, ?_⟩
        rw [List.drop_drop] at taking ⊢
        rwa [Nat.add_right_comm]
  | case4 p s inText apart plain => exact iff_of_false Bool.noConfusion (not_taking inText apart plain)
  | case5 p s star ended =>
    have all : ((pattern.drop p).all fun x => decide (x = '%')) = true ↔
        LikeTaking (pattern.drop p) [] := by
      rw [LikeTaking.nil_right, List.all_eq_true]
      simp
    have none_ : text.drop s = [] := List.drop_eq_nil_of_le (Nat.le_of_not_lt ended)
    rw [all]
    constructor
    · intro taking
      refine .of_here attempt ?_
      rwa [none_]
    · intro sought
      obtain ⟨k, taking⟩ := sought.later attempt
      rwa [none_, List.drop_nil] at taking

theorem likeMatch_taking (pattern text : String) : likeMatch pattern text = true ↔
    LikeTaking pattern.toList text.toList :=
  likeLoop_iff 0 0 none trivial

theorem likeMatch_clean (pattern : String) {text : String} (clean : '%' ∉ text.toList) :
    likeMatch pattern text = true ↔ Like pattern.toList text.toList := by
  rw [likeMatch_taking]
  exact ⟨LikeTaking.like, fun like => like.taking clean⟩

/-- The matcher is right unless a match has a `%` of the pattern take more or less than the `%` of
the text it stands on. -/
theorem likeMatch_iff (pattern text : String) :
    (likeMatch pattern text = true ↔ Like pattern.toList text.toList) ↔
    (Like pattern.toList text.toList → LikeTaking pattern.toList text.toList) := by
  rw [likeMatch_taking]
  constructor
  · intro same like
    exact same.mpr like
  · intro enough
    exact ⟨LikeTaking.like, enough⟩

/-- `LIKE '%'` refuses a text that starts with a percent sign. -/
theorem percent_refused : likeMatch "%" "%x" = false ∧ Like "%".toList "%x".toList := by
  refine ⟨?_, .percent ['%', 'x'] .nil⟩
  rw [Bool.eq_false_iff, Ne, likeMatch_taking]
  intro taking
  have taking : LikeTaking ['%'] ['%', 'x'] := taking
  generalize same : ['%', 'x'] = whole at taking
  cases taking with
  | percent run free =>
    rw [← same] at free
    exact free rfl
  | percentHere rest =>
    cases same
    cases rest
  | literal plain => exact plain.1 rfl

end TallyDB
