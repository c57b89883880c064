import Mathlib.Data.Nat.Digits.Defs
import Mathlib.Tactic.Common

/-!
# Reading bytes

A reader takes a value from the front of its bytes, refuses them, or fails a check of its
own. `Reads` says that a reader takes exactly the given bytes whatever follows them, and
refuses each strict prefix of them; `Sound` says what any bytes can give.
-/

namespace Wire

abbrev Bytes := List UInt8

/-! ### Little-endian words -/

def toLe : Nat → Nat → Bytes
  | 0, _ => []
  | width + 1, value => UInt8.ofNat value :: toLe width (value / 256)

def ofLe (bytes : Bytes) : Nat := Nat.ofDigits 256 (bytes.map UInt8.toNat)

@[simp] theorem ofLe_nil : ofLe [] = 0 := rfl

@[simp] theorem ofLe_cons (byte : UInt8) (rest : Bytes) : ofLe
      (byte :: rest) = byte.toNat + 256 * ofLe rest := by
  simp [ofLe, Nat.ofDigits_cons]

@[simp] theorem toLe_length (width value : Nat) : (toLe width value).length = width := by
  induction width generalizing value with
  | zero => rfl
  | succ width ih => simp [toLe, ih]

theorem ofLe_lt (bytes : Bytes) : ofLe bytes < 256 ^ bytes.length := by
  induction bytes with
  | nil => simp
  | cons byte rest ih =>
    have small := byte.toNat_lt
    simp only [ofLe_cons, List.length_cons, Nat.pow_succ]
    omega

theorem ofLe_toLe (width value : Nat) : ofLe (toLe width value) = value % 256 ^ width := by
  induction width generalizing value with
  | zero => simp [toLe, Nat.mod_one]
  | succ width ih =>
    rw [toLe, ofLe_cons, ih, UInt8.toNat_ofNat', show (2 : Nat) ^ 8 = 256 from rfl,
      Nat.pow_succ', Nat.mod_mul]

theorem ofLe_toLe_of_lt {width value : Nat} (fits : value < 256 ^ width) : ofLe
      (toLe width value) = value := by
  rw [ofLe_toLe, Nat.mod_eq_of_lt fits]

theorem toLe_ofLe (bytes : Bytes) : toLe bytes.length (ofLe bytes) = bytes := by
  induction bytes with
  | nil => rfl
  | cons byte rest ih =>
    have small := byte.toNat_lt
    rw [ofLe_cons, List.length_cons, toLe, show (byte.toNat + 256 * ofLe rest) / 256 = ofLe rest by
        omega, ih]
    congr 1
    apply UInt8.toNat_inj.mp
    rw [UInt8.toNat_ofNat']
    omega

theorem toLe_mod (width value : Nat) : toLe width (value % 256 ^ width) = toLe width value := by
  have bytes := toLe_ofLe (toLe width value)
  rwa [toLe_length, ofLe_toLe] at bytes

theorem toLe_congr {width value value' : Nat} (same : value % 256 ^ width = value' % 256 ^ width) :
    toLe width value = toLe width value' := by
  rw [← toLe_mod, same, toLe_mod]

theorem toLe_add (first second value : Nat) :
    toLe (first + second) value = toLe first value ++ toLe second (value / 256 ^ first) := by
  induction first generalizing value with
  | zero => simp [toLe]
  | succ first ih =>
    rw [Nat.add_right_comm, toLe, ih, toLe, List.cons_append, Nat.div_div_eq_div_mul, Nat.pow_succ']

theorem getElem_ofLe {bytes : Bytes} {position : Nat} (inside : position < bytes.length) :
    (bytes[position]).toNat = ofLe bytes / 256 ^ position % 256 := by
  induction bytes generalizing position with
  | nil => simp at inside
  | cons byte rest ih =>
    have small := byte.toNat_lt
    cases position with
    | zero =>
      rw [ofLe_cons]
      simp only [List.getElem_cons_zero, Nat.pow_zero, Nat.div_one]
      omega
    | succ position =>
      rw [List.getElem_cons_succ, ih (by simpa using inside), ofLe_cons, Nat.pow_succ',
        ← Nat.div_div_eq_div_mul,
        show (byte.toNat + 256 * ofLe rest) / 256 = ofLe rest by omega]

/-! ### Faults and readers -/

/-- Why a computation has no result. -/
inductive Fault (ε : Type) where
  /-- It refused its input. -/
  | refused (error : ε)
  /-- It failed a check of its own. -/
  | panicked (check : String)
  deriving DecidableEq, Repr

abbrev Result (ε α : Type) := Except (Fault ε) α

abbrev Reader (ε : Type) := StateT Bytes (Except (Fault ε))

variable {ε α β : Type}

def refuse (error : ε) : Result ε α := .error (.refused error)

def check (message : String) (condition : Bool) : Result ε Unit :=
  if condition then .ok () else .error (.panicked message)

/-- Turns the refusals of a computation into refusals of another kind. -/
def recast {δ : Type} (f : ε → δ) : Result ε α → Result δ α
  | .ok value => .ok value
  | .error (.refused error) => .error (.refused (f error))
  | .error (.panicked message) => .error (.panicked message)

/-- The element at a position, which the reader of a list must know to be there. -/
def index (xs : List α) (position : Nat) : Result ε α :=
  match xs[position]? with
  | some value => .ok value
  | none => .error (.panicked "index out of bounds")

def setAt (xs : List α) (position : Nat) (value : α) : Result ε (List α) :=
  if position < xs.length then .ok (xs.set position value) else .error (.panicked "index out of bounds")

/-- The computation failed a check of its own. -/
def Panicked (result : Result ε α) : Prop := ∃ message, result = .error (.panicked message)

@[simp] theorem not_panicked_ok (value : α) : ¬ Panicked (.ok value : Result ε α) := by
  rintro ⟨message, failed⟩
  cases failed

@[simp] theorem not_panicked_refuse (error : ε) : ¬ Panicked (refuse error : Result ε α) := by
  rintro ⟨message, failed⟩
  cases failed

@[simp] theorem panicked_check {message : String} {condition : Bool} : Panicked
      (check message condition : Result ε Unit) ↔ condition = false := by
  cases condition with
  | false => exact iff_of_true ⟨message, rfl⟩ rfl
  | true => exact iff_of_false (not_panicked_ok ()) Bool.noConfusion

theorem check_ok {message : String} {condition : Bool} {value : Unit}
    (passed : (check message condition : Result ε Unit) = .ok value) :
    condition = true := by
  unfold check at passed
  split at passed
  · assumption
  · cases passed

theorem panicked_bind {result : Result ε α} {next : α → Result ε β} :
    Panicked (result >>= next) ↔ Panicked result ∨ ∃ value, result = .ok value ∧ Panicked
      (next value) := by
  cases result with
  | error fault => simp [Panicked, bind, Except.bind]
  | ok value => simp [Panicked, bind, Except.bind]

@[simp] theorem panicked_map {f : α → β} {result : Result ε α} : Panicked (f <$> result) ↔
    Panicked result := by
  cases result with
  | error fault => simp [Panicked, Functor.map, Except.map]
  | ok value => simp [Panicked, Functor.map, Except.map]

@[simp] theorem panicked_recast {δ : Type} {f : ε → δ} {result : Result ε α} : Panicked
      (recast f result) ↔ Panicked result := by
  cases result with
  | ok value => simp [recast]
  | error fault => cases fault <;> simp [Panicked, recast]

namespace Reader

def lift (result : Result ε α) : Reader ε α := fun bytes => result.map (·, bytes)

def take (short : ε) (count : Nat) : Reader ε Bytes := fun bytes =>
  if count ≤ bytes.length then .ok (bytes.take count, bytes.drop count) else refuse short

def byte (short : ε) : Reader ε UInt8
  | [] => refuse short
  | first :: rest => .ok (first, rest)

def word (short : ε) (width : Nat) : Reader ε Nat := ofLe <$> take short width

def signedWord (short : ε) (width : Nat) : Reader ε Int :=
  (fun value : Nat => if value < 256 ^ width / 2 then (value : Int) else (value : Int) - 256 ^
    width) <$> word short width

/-- One reader after another, `count` times. -/
def times (reader : Reader ε α) : Nat → Reader ε (List α)
  | 0 => pure []
  | count + 1 => do
    let value ← reader
    let rest ← times reader count
    return value :: rest

def each (reader : β → Reader ε α) : List β → Reader ε (List α)
  | [] => pure []
  | item :: items => do
    let value ← reader item
    let rest ← each reader items
    return value :: rest

/-- A change of a value by what is read, `count` times. -/
def change (reader : α → Reader ε α) : Nat → α → Reader ε α
  | 0, value => pure value
  | count + 1, value => do
    let value ← reader value
    change reader count value

/-- Turns the refusals of a reader into refusals of another kind. -/
def recast {δ : Type} (f : ε → δ) (reader : Reader ε α) : Reader δ α :=
  fun bytes => Wire.recast f (reader bytes)

/-- Runs a reader on all of the bytes; `extra` refuses what it leaves. -/
def exactly (extra : Nat → ε) (reader : Reader ε α) (bytes : Bytes) : Result ε α :=
  match reader bytes with
  | .ok (value, []) => .ok value
  | .ok (_, rest) => refuse (extra rest.length)
  | .error fault => .error fault

theorem bind_apply (reader : Reader ε α) (next : α → Reader ε β) (bytes : Bytes) :
    (reader >>= next) bytes = (reader bytes).bind fun taken => next taken.1 taken.2 := rfl

theorem bind_ok {reader : Reader ε α} {next : α → Reader ε β} {bytes rest : Bytes} {value : α}
    (taken : reader bytes = .ok (value, rest)) : (reader >>= next) bytes = next value rest := by
  rw [bind_apply, taken]
  rfl

theorem bind_error {reader : Reader ε α} {next : α → Reader ε β} {bytes : Bytes} {fault : Fault ε}
    (failed : reader bytes = .error fault) : (reader >>= next) bytes = .error fault := by
  rw [bind_apply, failed]
  rfl

theorem map_apply (f : α → β) (reader : Reader ε α) (bytes : Bytes) :
    (f <$> reader) bytes = (reader bytes).map fun taken => (f taken.1, taken.2) := by
  show (reader bytes).bind _ = _
  cases reader bytes <;> rfl

/-! ### What a reader takes -/

/-- The reader takes exactly these bytes, whatever follows, and refuses each strict prefix. -/
structure Reads (reader : Reader ε α) (bytes : Bytes) (value : α) : Prop where
  takes : ∀ rest, reader (bytes ++ rest) = .ok (value, rest)
  needs : ∀ front back, bytes = front ++ back → back ≠ [] → ∃ error,
    reader front = .error (.refused error)

theorem Reads.pure (value : α) : Reads (Pure.pure value : Reader ε α) [] value where
  takes _ := rfl
  needs front back split more := by
    obtain ⟨-, rfl⟩ := List.append_eq_nil_iff.mp split.symm
    exact absurd rfl more

theorem Reads.lift {result : Result ε α} {value : α} (given : result = .ok value) : Reads
      (lift result) [] value := by
  subst given
  exact .pure value

theorem Reads.bind {reader : Reader ε α} {next : α → Reader ε β} {first second : Bytes}
    {value : α} {result : β}
    (reads : Reads reader first value) (continues : Reads (next value) second result) :
    Reads (reader >>= next) (first ++ second) result where
  takes rest := by
    rw [List.append_assoc, bind_ok (reads.takes _)]
    exact continues.takes rest
  needs front back split more := by
    rcases List.append_eq_append_iff.mp split with ⟨more', rfl, rest⟩ | ⟨less, rfl, rest⟩
    · obtain ⟨error, refused⟩ := continues.needs more' back rest more
      exact ⟨error, by rw [bind_ok (reads.takes _), refused]⟩
    · by_cases empty : less = []
      · subst empty
        obtain rfl : back = second := rest
        obtain ⟨error, refused⟩ := continues.needs [] back rfl more
        refine ⟨error, ?_⟩
        rw [List.append_nil] at reads
        rw [← List.append_nil front, bind_ok (reads.takes []), refused]
      · obtain ⟨error, refused⟩ := reads.needs front less rfl empty
        exact ⟨error, bind_error refused⟩

theorem Reads.finish {reader : Reader ε α} {bytes : Bytes} {value : α}
    (reads : Reads reader bytes value) (f : α → β) :
    Reads (reader >>= fun value => Pure.pure (f value)) bytes (f value) := by
  have both := @Reads.bind ε α β reader (fun value => Pure.pure (f value)) _ _ _ _ reads
    (.pure (f value))
  rw [List.append_nil] at both
  exact both

theorem Reads.map {reader : Reader ε α} {bytes : Bytes} {value : α} (f : α → β)
    (reads : Reads reader bytes value) :
    Reads (f <$> reader) bytes (f value) where
  takes rest := by
    rw [map_apply, reads.takes]
    rfl
  needs front back split more := by
    obtain ⟨error, refused⟩ := reads.needs front back split more
    exact ⟨error, by rw [map_apply, refused]; rfl⟩

theorem Reads.congr {reader : Reader ε α} {bytes bytes' : Bytes} {value value' : α}
    (reads : Reads reader bytes value)
    (bytes_eq : bytes = bytes') (value_eq : value = value') : Reads reader bytes' value' := by
  subst bytes_eq value_eq
  exact reads

theorem Reads.take (short : ε) (bytes : Bytes) : Reads (take short bytes.length) bytes bytes where
  takes rest := by
    simp [Reader.take]
  needs front back split more := by
    refine ⟨short, ?_⟩
    have longer : ¬ bytes.length ≤ front.length := by
      have := List.length_pos_iff.mpr more
      rw [split, List.length_append]
      omega
    rw [Reader.take, if_neg longer]
    rfl

theorem Reads.byte (short : ε) (first : UInt8) : Reads (byte short) [first] first where
  takes _ := rfl
  needs front back split more := by
    refine ⟨short, ?_⟩
    cases front with
    | nil => rfl
    | cons other front =>
      have lengths := congrArg List.length split
      have := List.length_pos_iff.mpr more
      simp only [List.length_cons, List.length_append, List.length_nil] at lengths
      omega

theorem Reads.word (short : ε) {width value : Nat} (fits : value < 256 ^ width) :
    Reads (word short width) (toLe width value) value := by
  have bytes := (Reads.take short (toLe width value)).map ofLe
  rw [toLe_length, ofLe_toLe_of_lt fits] at bytes
  exact bytes

theorem Reads.signedWord (short : ε) {width value : Nat} (fits : value < 256 ^ width / 2) :
    Reads (signedWord short width) (toLe width value) (value : Int) := by
  have wide : value < 256 ^ width := by omega
  have word := (Reads.word short wide).map fun read : Nat =>
    if read < 256 ^ width / 2 then (read : Int) else (read : Int) - 256 ^ width
  rw [if_pos fits] at word
  exact word

/-- What is read back may be another form of what was written. -/
theorem Reads.times_map {γ : Type} {reader : Reader ε α} {encode : γ → Bytes} {value : γ → α}
    {sources : List γ}
    (one : ∀ source ∈ sources, Reads reader (encode source) (value source)) :
    Reads (times reader sources.length) (sources.flatMap encode) (sources.map value) := by
  induction sources with
  | nil => exact .pure []
  | cons source sources ih =>
    have rest := ih fun other member => one other (List.mem_cons_of_mem _ member)
    exact (one source List.mem_cons_self).bind (rest.finish (value source :: ·))

theorem Reads.times {reader : Reader ε α} {encode : α → Bytes} {values : List α}
    (one : ∀ value ∈ values, Reads reader (encode value) value) :
    Reads (times reader values.length) (values.flatMap encode) values := by
  have all := @Reads.times_map ε α α reader encode id values one
  rwa [List.map_id] at all

theorem Reads.each {γ : Type} {reader : β → Reader ε α} {encode : γ → Bytes} {item : γ → β}
    {value : γ → α} {sources : List γ}
    (one : ∀ source ∈ sources, Reads (reader (item source)) (encode source) (value source)) :
    Reads (each reader (sources.map item)) (sources.flatMap encode) (sources.map value) := by
  induction sources with
  | nil => exact .pure []
  | cons source sources ih =>
    have rest := ih fun other member => one other (List.mem_cons_of_mem _ member)
    exact (one source List.mem_cons_self).bind (rest.finish (value source :: ·))

theorem Reads.change {reader : α → Reader ε α} {encode : β → Bytes} {apply : α → β → α}
    {holds : α → Prop} {sources : List β}
    (one : ∀ value, holds value → ∀ source ∈ sources,
      Reads (reader value) (encode source) (apply value source))
    (keeps : ∀ value, holds value → ∀ source, holds (apply value source)) {value : α}
    (start : holds value) :
    Reads (change reader sources.length value) (sources.flatMap encode)
      (sources.foldl apply value) := by
  induction sources generalizing value with
  | nil => exact .pure value
  | cons source sources ih =>
    have rest := ih (fun value good other member =>
      one value good other (List.mem_cons_of_mem _ member)) (keeps value start source)
    exact (one value start source List.mem_cons_self).bind rest

theorem change_add (reader : α → Reader ε α) (first second : Nat) (value : α) :
    change reader (first + second) value = (change reader first value >>= change reader second) := by
  induction first generalizing value with
  | zero => rw [Nat.zero_add, change, pure_bind]
  | succ first ih =>
    rw [Nat.add_right_comm, change, change, bind_assoc]
    exact congrArg (reader value >>= ·) (funext ih)

theorem Reads.change_append {reader : α → Reader ε α} {first second : Nat} {bytes bytes' : Bytes}
    {value middle result : α}
    (reads : Reads (Reader.change reader first value) bytes middle)
    (continues : Reads (Reader.change reader second middle) bytes' result) :
    Reads (Reader.change reader (first + second) value) (bytes ++ bytes') result := by
  rw [change_add]
  exact reads.bind continues

theorem Reads.exactly {reader : Reader ε α} {bytes : Bytes} {value : α} (extra : Nat → ε)
    (reads : Reads reader bytes value) :
    exactly extra reader bytes = .ok value := by
  have taken := reads.takes []
  rw [List.append_nil] at taken
  rw [Reader.exactly, taken]

/-- A strict prefix of what a reader takes is refused. -/
theorem Reads.exactly_short {reader : Reader ε α} {front back : Bytes} {value : α} (extra : Nat → ε)
    (reads : Reads reader (front ++ back) value) (more : back ≠ []) :
    ∃ error, Reader.exactly extra reader front = .error (.refused error) := by
  obtain ⟨error, refused⟩ := reads.needs front back rfl more
  exact ⟨error, by rw [Reader.exactly, refused]⟩

/-! ### What any bytes can give -/

/-- On no bytes does the reader fail a check, and what it takes is a good reading of bytes from the
front. -/
def Sound (reader : Reader ε α) (good : α → Bytes → Prop) : Prop :=
  ∀ bytes, match reader bytes with
    | .ok (value, rest) => ∃ used, bytes = used ++ rest ∧ good value used
    | .error (.refused _) => True
    | .error (.panicked _) => False

variable {good : α → Bytes → Prop} {good' : β → Bytes → Prop}

theorem Sound.ok {reader : Reader ε α} (sound : Sound reader good) {bytes rest : Bytes} {value : α}
    (taken : reader bytes = .ok (value, rest)) : ∃ used, bytes = used ++ rest ∧ good value used := by
  have given := sound bytes
  rw [taken] at given
  exact given

theorem Sound.not_panicked {reader : Reader ε α} (sound : Sound reader good) {bytes : Bytes}
    {message : String} :
    reader bytes ≠ .error (.panicked message) := fun failed => by
  have given := sound bytes
  rw [failed] at given
  exact given

theorem Sound.pure {value : α} (holds : good value []) : Sound
      (Pure.pure value : Reader ε α) good := fun _ =>
  ⟨[], rfl, holds⟩

theorem Sound.refuse (error : ε) : Sound (lift (Wire.refuse error) : Reader ε α) good :=
  fun _ => trivial

theorem Sound.lift {result : Result ε α} (safe : ∀ message, result ≠ .error (.panicked message))
    (holds : ∀ value, result = .ok value → good value []) : Sound (lift result) good := by
  intro _
  cases result with
  | ok value => exact ⟨[], rfl, holds value rfl⟩
  | error fault =>
    cases fault with
    | refused error => trivial
    | panicked message => exact absurd rfl (safe message)

theorem Sound.bind {reader : Reader ε α} {next : α → Reader ε β} (sound : Sound reader good)
    (continues : ∀ value used, good value used → Sound (next value) fun result used' =>
      good' result (used ++ used')) :
    Sound (reader >>= next) good' := fun bytes => by
  have first := sound bytes
  cases taken : reader bytes with
  | error fault =>
    rw [bind_error taken]
    rw [taken] at first
    cases fault with
    | refused _ => trivial
    | panicked _ => exact first
  | ok pair =>
    obtain ⟨value, rest⟩ := pair
    rw [taken] at first
    obtain ⟨used, rfl, holds⟩ := first
    have second := continues value used holds rest
    rw [bind_ok taken]
    cases taken' : next value rest with
    | error fault =>
      rw [taken'] at second
      cases fault with
      | refused _ => trivial
      | panicked _ => exact second
    | ok pair =>
      obtain ⟨result, rest'⟩ := pair
      rw [taken'] at second
      obtain ⟨used', rfl, holds'⟩ := second
      exact ⟨used ++ used', (List.append_assoc ..).symm, holds'⟩

theorem Sound.mono {reader : Reader ε α} {other : α → Bytes → Prop} (sound : Sound reader good)
    (weaker : ∀ value used, good value used → other value used) : Sound reader other := fun bytes => by
  have given := sound bytes
  split at given
  · obtain ⟨used, split_, holds⟩ := given
    exact ⟨used, split_, weaker _ _ holds⟩
  · trivial
  · exact given

theorem Sound.map {f : α → β} {reader : Reader ε α}
    (sound : Sound reader fun value used => good' (f value) used) :
    Sound (f <$> reader) good' := fun bytes => by
  have given := sound bytes
  rw [map_apply]
  cases taken : reader bytes with
  | error fault => cases fault <;> rw [taken] at given <;> exact given
  | ok pair =>
    rw [taken] at given
    exact given

theorem Sound.take (short : ε) (count : Nat) : Sound (take short count) fun value used =>
      value = used ∧ used.length = count := by
  intro bytes
  by_cases enough : count ≤ bytes.length
  · simp only [Reader.take, if_pos enough]
    exact ⟨bytes.take count, (List.take_append_drop count bytes).symm, rfl,
      List.length_take_of_le enough⟩
  · simp only [Reader.take, if_neg enough]
    trivial

theorem Sound.byte (short : ε) : Sound (byte short) fun value used => used = [value] := by
  intro bytes
  cases bytes with
  | nil => trivial
  | cons first rest => exact ⟨[first], rfl, rfl⟩

theorem Sound.word (short : ε) (width : Nat) :
    Sound (word short width) fun value used => value < 256 ^ width ∧ used = toLe width value :=
  .map ((Sound.take short width).mono fun value used ⟨same, length⟩ => by
    subst same
    have bound := ofLe_lt value
    have bytes := toLe_ofLe value
    rw [length] at bound bytes
    exact ⟨bound, bytes.symm⟩)

theorem Sound.times {reader : Reader ε α} {holds : α → Prop}
    (sound : Sound reader fun value _ => holds value) (count : Nat) :
    Sound (times reader count) fun values _ => values.length = count ∧ ∀ value ∈ values,
    holds value := by
  induction count with
  | zero => exact .pure ⟨rfl, by simp⟩
  | succ count ih =>
    refine .bind sound fun value _ one => .bind ih fun rest _ more =>
      .pure ⟨by rw [List.length_cons, more.1], ?_⟩
    intro other member
    rcases List.mem_cons.mp member with rfl | member
    · exact one
    · exact more.2 other member

theorem Sound.each {reader : β → Reader ε α} {holds : α → Prop} {items : List β}
    (sound : ∀ item, Sound (reader item) fun value _ => holds value) :
    Sound (each reader items) fun values _ => values.length = items.length ∧ ∀ value ∈ values,
    holds value := by
  induction items with
  | nil => exact .pure ⟨rfl, by simp⟩
  | cons item items ih =>
    refine .bind (sound item) fun value _ one => .bind ih fun rest _ more =>
      .pure ⟨by rw [List.length_cons, more.1]; rfl, ?_⟩
    intro other member
    rcases List.mem_cons.mp member with rfl | member
    · exact one
    · exact more.2 other member

theorem Sound.change {reader : α → Reader ε α} {holds : α → Prop}
    (sound : ∀ value, holds value → Sound (reader value) fun result _ => holds result)
    (count : Nat) {value : α} (start : holds value) : Sound
      (change reader count value) fun result _ => holds result := by
  induction count generalizing value with
  | zero => exact .pure start
  | succ count ih => exact .bind (sound value start) fun result _ good => ih good

/-- What a reader takes of all the bytes is good for them. -/
theorem Sound.exactly {reader : Reader ε α} (sound : Sound reader good) (extra : Nat → ε)
    {bytes : Bytes} {value : α}
    (taken : exactly extra reader bytes = .ok value) : good value bytes := by
  have given := sound bytes
  unfold Reader.exactly at taken
  split at taken
  · next same =>
    cases taken
    rw [same] at given
    obtain ⟨used, rfl, holds⟩ := given
    rw [List.append_nil]
    exact holds
  · cases taken
  · cases taken

/-! ### What a reader gives, and where it panics -/

/-- Whatever the reader takes, it is good. -/
def Gives (reader : Reader ε α) (good : α → Prop) : Prop :=
  ∀ bytes value rest, reader bytes = .ok (value, rest) → good value

/-- On these bytes the reader fails a check of its own. -/
def Panics (reader : Reader ε α) (bytes : Bytes) : Prop := Panicked (reader bytes)

theorem Sound.gives {reader : Reader ε α} {holds : α → Prop}
    (sound : Sound reader fun value _ => holds value) : Gives reader holds := by
  intro _ _ _ taken
  obtain ⟨_, _, good⟩ := sound.ok taken
  exact good

theorem bind_ok_inv {reader : Reader ε α} {next : α → Reader ε β} {bytes rest : Bytes} {result : β}
    (taken : (reader >>= next) bytes = .ok (result, rest)) :
    ∃ value middle, reader bytes = .ok (value, middle) ∧ next value middle = .ok (result, rest) := by
  cases first : reader bytes with
  | error fault =>
    rw [bind_error first] at taken
    cases taken
  | ok pair =>
    rw [bind_ok first] at taken
    exact ⟨pair.1, pair.2, rfl, taken⟩

variable {holds : α → Prop} {holds' : β → Prop}

theorem Gives.any (reader : Reader ε α) : Gives reader fun _ => True := fun _ _ _ _ => trivial

theorem Gives.pure {value : α} (good : holds value) : Gives (Pure.pure value : Reader ε α) holds := by
  intro _ _ _ taken
  cases taken
  exact good

theorem Gives.lift {result : Result ε α} (good : ∀ value, result = .ok value → holds value) : Gives
      (lift result) holds := by
  intro bytes value rest taken
  cases result with
  | error fault => cases taken
  | ok value =>
    cases taken
    exact good value rfl

theorem Gives.bind {reader : Reader ε α} {next : α → Reader ε β} (gives : Gives reader holds)
    (continues : ∀ value, holds value → Gives (next value) holds') : Gives
      (reader >>= next) holds' := by
  intro bytes result rest taken
  obtain ⟨value, middle, first, second⟩ := bind_ok_inv taken
  exact continues value (gives bytes value middle first) middle result rest second

theorem Gives.mono {reader : Reader ε α} {other : α → Prop} (gives : Gives reader holds)
    (weaker : ∀ value, holds value → other value) : Gives reader other := fun bytes value rest taken =>
  weaker value (gives bytes value rest taken)

theorem Gives.map {f : α → β} {reader : Reader ε α}
    (gives : Gives reader fun value => holds' (f value)) : Gives (f <$> reader) holds' := by
  intro bytes result rest taken
  rw [map_apply] at taken
  cases first : reader bytes with
  | error fault =>
    rw [first] at taken
    cases taken
  | ok pair =>
    rw [first] at taken
    cases taken
    exact gives bytes pair.1 pair.2 first

theorem Gives.take (short : ε) (count : Nat) : Gives (take short count) fun bytes =>
      bytes.length = count := by
  intro bytes value rest taken
  obtain ⟨used, _, rfl, length⟩ := (Sound.take short count).ok taken
  exact length

theorem Gives.word (short : ε) (width : Nat) : Gives (word short width) (· < 256 ^ width) := by
  intro bytes value rest taken
  obtain ⟨_, _, small, _⟩ := (Sound.word short width).ok taken
  exact small

theorem Gives.signedWord (short : ε) (width : Nat) : Gives (signedWord short width) fun value =>
      value < (256 ^ width / 2 : Nat) := by
  refine .map ((Gives.word short width).mono fun value small => ?_)
  have wide : (256 : Int) ^ width = (256 ^ width : Nat) := (Int.natCast_pow 256 width).symm
  split
  · omega
  · omega

theorem Gives.times {reader : Reader ε α} (gives : Gives reader holds) (count : Nat) :
    Gives (times reader count) fun values => values.length = count ∧ ∀ value ∈ values, holds value := by
  induction count with
  | zero => exact .pure ⟨rfl, by simp⟩
  | succ count ih =>
    refine .bind gives fun value one => .bind ih fun rest more =>
      .pure ⟨by rw [List.length_cons, more.1], ?_⟩
    intro other member
    rcases List.mem_cons.mp member with rfl | member
    · exact one
    · exact more.2 other member

theorem Gives.each {reader : β → Reader ε α} {items : List β}
    (gives : ∀ item, Gives (reader item) holds) :
    Gives (each reader items) fun values => values.length = items.length ∧ ∀ value ∈ values,
    holds value := by
  induction items with
  | nil => exact .pure ⟨rfl, by simp⟩
  | cons item items ih =>
    refine .bind (gives item) fun value one => .bind ih fun rest more =>
      .pure ⟨by rw [List.length_cons, more.1, List.length_cons], ?_⟩
    intro other member
    rcases List.mem_cons.mp member with rfl | member
    · exact one
    · exact more.2 other member

theorem Gives.exactly {reader : Reader ε α} (gives : Gives reader holds) {extra : Nat → ε}
    {bytes : Bytes} {value : α}
    (taken : exactly extra reader bytes = .ok value) : holds value := by
  unfold Reader.exactly at taken
  split at taken
  · next same =>
    cases taken
    exact gives _ _ _ same
  · cases taken
  · cases taken

theorem Gives.change {reader : α → Reader ε α}
    (gives : ∀ value, holds value → Gives (reader value) holds) (count : Nat) {value : α}
    (start : holds value) : Gives (change reader count value) holds := by
  induction count generalizing value with
  | zero => exact .pure start
  | succ count ih => exact .bind (gives value start) fun result good => ih good

theorem panics_bind {reader : Reader ε α} {next : α → Reader ε β} {bytes : Bytes} :
    Panics (reader >>= next) bytes ↔ Panics reader bytes ∨ ∃ value rest,
    reader bytes = .ok (value, rest) ∧ Panics (next value) rest := by
  cases first : reader bytes with
  | error fault => simp [Panics, Panicked, bind_error first, first]
  | ok pair =>
    obtain ⟨value, rest⟩ := pair
    simp [Panics, bind_ok first, first]

/-- One of `count` readings, one after the other, starts at bytes of a kind. -/
def Reaches (reader : Reader ε α) (flaw : Bytes → Prop) : Nat → Bytes → Prop
  | 0, _ => False
  | count + 1, bytes =>
      flaw bytes ∨ ∃ value rest, reader bytes = .ok (value, rest) ∧ Reaches reader flaw count rest

theorem not_panics_pure (value : α) (bytes : Bytes) : ¬ Panics
      (Pure.pure value : Reader ε α) bytes := not_panicked_ok _

theorem panics_lift {result : Result ε α} {bytes : Bytes} : Panics (lift result) bytes ↔
    Panicked result := panicked_map

theorem panics_times {reader : Reader ε α} {flaw : Bytes → Prop}
    (panics : ∀ bytes, Panics reader bytes ↔ flaw bytes) {count : Nat}
    {bytes : Bytes} : Panics (times reader count) bytes ↔ Reaches reader flaw count bytes := by
  induction count generalizing bytes with
  | zero => exact iff_of_false (not_panics_pure [] bytes) id
  | succ count ih =>
    have rest (value : α) (bytes : Bytes) :
        Panics (times reader count >>= fun rest => Pure.pure (value :: rest)) bytes ↔
          Reaches reader flaw count bytes := by
      rw [panics_bind, ih, or_iff_left]
      rintro ⟨_, _, _, failed⟩
      exact not_panics_pure _ _ failed
    simp only [times, panics_bind, panics, rest, Reaches]

/-- One of `count` changes, one after the other, starts at bytes of a kind. -/
def Changes (reader : α → Reader ε α) (flaw : Bytes → Prop) : Nat → α → Bytes → Prop
  | 0, _, _ => False
  | count + 1, value, bytes =>
      flaw bytes ∨ ∃ next rest, reader value bytes = .ok (next, rest) ∧
        Changes reader flaw count next rest

theorem panics_change {reader : α → Reader ε α} {flaw : Bytes → Prop}
    (panics : ∀ value bytes, Panics (reader value) bytes ↔ flaw bytes)
    {count : Nat} {value : α} {bytes : Bytes} : Panics (change reader count value) bytes ↔
    Changes reader flaw count value bytes := by
  induction count generalizing value bytes with
  | zero => exact iff_of_false (not_panics_pure value bytes) id
  | succ count ih => simp only [change, panics_bind, panics, ih, Changes]

/-- A reader that panics after a sound one panics on what that one leaves. -/
theorem Panics.after {reader : Reader ε α} {next : α → Reader ε β} {bytes : Bytes}
    (panics : Panics (reader >>= next) bytes)
    (sound : Sound reader good) :
    ∃ value used rest, bytes = used ++ rest ∧ good value used ∧ reader bytes = .ok (value, rest) ∧
    Panics (next value) rest := by
  rcases panics_bind.mp panics with ⟨message, failed⟩ | ⟨value, rest, taken, panics⟩
  · exact absurd failed sound.not_panicked
  · obtain ⟨used, split_, holds⟩ := sound.ok taken
    exact ⟨value, used, rest, split_, holds, taken, panics⟩

theorem Reads.panics {reader : Reader ε α} {next : α → Reader ε β} {first rest : Bytes} {value : α}
    (reads : Reads reader first value) :
    Panics (reader >>= next) (first ++ rest) ↔ Panics (next value) rest := by
  rw [Panics, bind_ok (reads.takes rest)]
  exact Iff.rfl

/-- On no bytes does the reader fail a check of its own. -/
def Safe (reader : Reader ε α) : Prop := ∀ bytes, ¬ Panics reader bytes

theorem Sound.safe {reader : Reader ε α} (sound : Sound reader good) : Safe reader := by
  rintro bytes ⟨message, failed⟩
  exact sound.not_panicked failed

theorem Safe.pure (value : α) : Safe (Pure.pure value : Reader ε α) := not_panics_pure value

theorem Safe.lift {result : Result ε α} (safe : ¬ Panicked result) : Safe (lift result) :=
  fun _ panics => safe (panics_lift.mp panics)

theorem Safe.bind {reader : Reader ε α} {next : α → Reader ε β} (safe : Safe reader)
    (gives : Gives reader holds)
    (continues : ∀ value, holds value → Safe (next value)) : Safe (reader >>= next) := by
  intro bytes panics
  rcases panics_bind.mp panics with failed | ⟨value, rest, taken, failed⟩
  · exact safe bytes failed
  · exact continues value (gives bytes value rest taken) rest failed

theorem Safe.seq {reader : Reader ε α} {next : α → Reader ε β} (safe : Safe reader)
    (continues : ∀ value, Safe (next value)) :
    Safe (reader >>= next) := safe.bind (.any reader) fun value _ => continues value

theorem Safe.map {reader : Reader ε α} (f : α → β) (safe : Safe reader) : Safe (f <$> reader) := by
  rintro bytes ⟨message, failed⟩
  rw [map_apply] at failed
  cases taken : reader bytes with
  | error fault =>
    rw [taken] at failed
    exact safe bytes ⟨message, taken.trans (congrArg Except.error (Except.error.inj failed))⟩
  | ok pair =>
    rw [taken] at failed
    cases failed

theorem Safe.times {reader : Reader ε α} (safe : Safe reader) (count : Nat) : Safe
      (times reader count) := by
  induction count with
  | zero => exact .pure []
  | succ count ih => exact safe.seq fun value => ih.seq fun rest => .pure _

theorem Safe.each {reader : β → Reader ε α} {items : List β}
    (safe : ∀ item ∈ items, Safe (reader item)) : Safe (each reader items) := by
  induction items with
  | nil => exact .pure []
  | cons item items ih =>
    have rest := ih fun other member => safe other (List.mem_cons_of_mem _ member)
    exact (safe item List.mem_cons_self).seq fun value => rest.seq fun values => .pure _

theorem Safe.change {reader : α → Reader ε α} (safe : ∀ value, Safe (reader value))
    (count : Nat) (value : α) :
    Safe (change reader count value) := by
  induction count generalizing value with
  | zero => exact .pure value
  | succ count ih => exact (safe value).seq ih

theorem Safe.exactly {reader : Reader ε α} (safe : Safe reader) (extra : Nat → ε) (bytes : Bytes) :
    ¬ Panicked (Reader.exactly extra reader bytes) := by
  unfold Reader.exactly
  split
  · exact not_panicked_ok _
  · exact not_panicked_refuse _
  · next same =>
    rintro ⟨message, failed⟩
    rw [Except.error.inj failed] at same
    exact safe bytes ⟨message, same⟩

end Reader

end Wire
