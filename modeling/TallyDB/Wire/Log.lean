import TallyDB.Wire.Reader

/-!
# Logs of records

A log is one record after another, each of which delimits itself. A reader of records runs
until it refuses: after a cut, that is at the first record which the cut reaches into.
-/

namespace Wire

variable {ε α β : Type}

/-! ### What a reader takes at least -/

/-- Whatever it takes, the reader takes so many bytes at least. -/
def Costs (reader : Reader ε α) (least : Nat) : Prop :=
  ∀ bytes value rest, reader bytes = .ok (value, rest) → rest.length + least ≤ bytes.length

theorem Costs.pure (value : α) : Costs (Pure.pure value : Reader ε α) 0 := by
  intro bytes result rest taken
  cases taken
  exact Nat.le_refl _

theorem Costs.lift (result : Result ε α) : Costs (Reader.lift result) 0 := by
  intro bytes value rest taken
  cases result with
  | error fault => cases taken
  | ok value =>
    cases taken
    exact Nat.le_refl _

theorem Costs.take (short : ε) (count : Nat) : Costs (Reader.take short count) count := by
  intro bytes value rest taken
  obtain ⟨used, rfl, -, length⟩ := (Reader.Sound.take short count).ok taken
  rw [List.length_append]
  omega

theorem Costs.byte (short : ε) : Costs (Reader.byte short) 1 := by
  intro bytes value rest taken
  obtain ⟨used, rfl, rfl⟩ := (Reader.Sound.byte short).ok taken
  exact Nat.le_refl _

theorem Costs.word (short : ε) (width : Nat) : Costs (Reader.word short width) width := by
  intro bytes value rest taken
  obtain ⟨used, rfl, -, rfl⟩ := (Reader.Sound.word short width).ok taken
  rw [List.length_append, toLe_length]
  omega

theorem Costs.map {reader : Reader ε α} {least : Nat} (f : α → β) (costs : Costs reader least) :
    Costs (f <$> reader) least := by
  intro bytes value rest taken
  rw [Reader.map_apply] at taken
  cases first : reader bytes with
  | error fault =>
    rw [first] at taken
    cases taken
  | ok pair =>
    rw [first] at taken
    cases taken
    exact costs bytes pair.1 pair.2 first

theorem Costs.bind {reader : Reader ε α} {next : α → Reader ε β} {first second : Nat}
    (costs : Costs reader first)
    (continues : ∀ value, Costs (next value) second) : Costs (reader >>= next) (first + second) := by
  intro bytes value rest taken
  obtain ⟨middle, between, taken, taken'⟩ := Reader.bind_ok_inv taken
  have before := costs bytes middle between taken
  have after := continues middle between value rest taken'
  omega

theorem Costs.mono {reader : Reader ε α} {least less : Nat} (costs : Costs reader least)
    (fewer : less ≤ least) : Costs reader less :=
  fun bytes value rest taken => by
    have := costs bytes value rest taken
    omega

theorem Costs.any {reader : Reader ε α} {least : Nat} (costs : Costs reader least) :
    Costs reader 0 := costs.mono (Nat.zero_le _)

theorem Costs.first {reader : Reader ε α} {next : α → Reader ε β} {least : Nat}
    (costs : Costs reader least)
    (continues : ∀ value, Costs (next value) 0) : Costs (reader >>= next) least := costs.bind continues

theorem Costs.each {reader : β → Reader ε α} {least : Nat}
    (costs : ∀ item, Costs (reader item) least) (items : List β) :
    Costs (Reader.each reader items) (items.length * least) := by
  induction items with
  | nil => exact (Costs.pure []).mono (by simp)
  | cons item items ih =>
    refine ((costs item).bind fun value => ih.bind fun values => Costs.pure (value :: values)).mono ?_
    rw [List.length_cons, Nat.succ_mul]
    omega

theorem Costs.times {reader : Reader ε α} {least : Nat} (costs : Costs reader least) (count : Nat) :
    Costs (reader.times count) (count * least) := by
  induction count with
  | zero => exact (Costs.pure []).mono (by simp)
  | succ count ih =>
    refine (costs.bind fun value => ih.bind fun values => Costs.pure (value :: values)).mono ?_
    rw [Nat.succ_mul]
    omega

/-! ### Readers of records -/

def readAllFor (reader : Reader ε α) : Nat → Bytes → List α
  | 0, _ => []
  | fuel + 1, bytes =>
    match reader bytes with
    | .ok (value, rest) => value :: readAllFor reader fuel rest
    | .error _ => []

def readAll (reader : Reader ε α) (bytes : Bytes) : List α := readAllFor reader (bytes.length + 1) bytes

abbrev Consumes (reader : Reader ε α) : Prop := Costs reader 1

variable {reader : Reader ε α}

theorem readAllFor_enough (consumes : Consumes reader) {bytes : Bytes} {fuel more : Nat}
    (enough : bytes.length < fuel) :
    readAllFor reader (fuel + more) bytes = readAllFor reader fuel bytes := by
  induction fuel generalizing bytes with
  | zero => omega
  | succ fuel ih =>
    rw [Nat.add_right_comm]
    cases taken : reader bytes with
    | error fault => simp only [readAllFor, taken]
    | ok pair =>
      obtain ⟨value, rest⟩ := pair
      have shorter := consumes bytes value rest taken
      simp only [readAllFor, taken]
      rw [ih (by omega)]

theorem readAll_ok (consumes : Consumes reader) {bytes rest : Bytes} {value : α}
    (taken : reader bytes = .ok (value, rest)) :
    readAll reader bytes = value :: readAll reader rest := by
  have shorter := consumes bytes value rest taken
  obtain ⟨more, fuel⟩ := Nat.exists_eq_add_of_le (show rest.length + 1 ≤ bytes.length by omega)
  rw [readAll, readAllFor, taken]
  simp only
  rw [fuel, readAllFor_enough consumes (Nat.lt_succ_self _), readAll]

theorem readAll_error {bytes : Bytes} {fault : Fault ε} (failed : reader bytes = .error fault) :
    readAll reader bytes = [] := by
  rw [readAll, readAllFor, failed]

theorem readAll_cons (consumes : Consumes reader) {bytes : Bytes} {value : α} {values : List α}
    (values_eq : readAll reader bytes = value :: values) :
    ∃ rest, reader bytes = .ok (value, rest) ∧ readAll reader rest = values := by
  cases taken : reader bytes with
  | error fault =>
    rw [readAll_error taken] at values_eq
    cases values_eq
  | ok pair =>
    obtain ⟨first, rest⟩ := pair
    rw [readAll_ok consumes taken, List.cons.injEq] at values_eq
    obtain ⟨rfl, rfl⟩ := values_eq
    exact ⟨rest, rfl, rfl⟩

theorem readAll_nil (consumes : Consumes reader) : readAll reader [] = [] := by
  cases taken : reader [] with
  | error fault => exact readAll_error taken
  | ok pair => exact absurd (consumes [] pair.1 pair.2 taken) (Nat.not_lt_zero _)

theorem Reader.Sound.consumes (sound : reader.Sound fun _ used => 0 < used.length) :
    Consumes reader := by
  intro bytes value rest taken
  obtain ⟨used, rfl, some_⟩ := sound.ok taken
  rw [List.length_append]
  omega

/-- What holds of whatever a reader takes holds of all that it drains. -/
theorem readAll_forall {holds : α → Prop} (consumes : Consumes reader) (gives : reader.Gives holds)
    (bytes : Bytes) :
    ∀ value ∈ readAll reader bytes, holds value := by
  intro value member
  induction values_eq : readAll reader bytes generalizing bytes with
  | nil => simp [values_eq] at member
  | cons first values ih =>
    obtain ⟨rest, taken, remaining⟩ := readAll_cons consumes values_eq
    rw [values_eq, List.mem_cons] at member
    rcases member with rfl | member
    · exact gives bytes _ rest taken
    · exact ih rest (remaining ▸ member) remaining

/-- What a reader takes of items of known sizes is as long as the items together. -/
theorem Reader.Sound.times_size {size : α → Nat}
    (sound : reader.Sound fun value used => used.length = size value) (count : Nat) :
    (reader.times count).Sound fun values used => used.length = (values.map size).sum := by
  induction count with
  | zero => exact .pure rfl
  | succ count ih =>
    refine sound.bind fun value used length => ih.bind fun values used' length' => .pure ?_
    simp [length, length']

/-! ### A log that was cut -/

/-- The records of a log from `start` that lie wholly before a cut. -/
def recordsBefore (encode : β → Bytes) (cut : Nat) : Nat → List β → List β
  | _, [] => []
  | start, record :: records =>
    let stop := start + (encode record).length
    if stop ≤ cut then record :: recordsBefore encode cut stop records else recordsBefore encode
      cut stop records

theorem recordsBefore_past {encode : β → Bytes} {cut start : Nat} (past : cut < start)
    (records : List β) :
    recordsBefore encode cut start records = [] := by
  induction records generalizing start with
  | nil => rfl
  | cons record records ih =>
    rw [recordsBefore]
    rw [if_neg (by omega), ih (by omega)]

theorem recordsBefore_all {encode : β → Bytes} {cut start : Nat} {records : List β}
    (whole : start + (records.flatMap encode).length ≤ cut) :
    recordsBefore encode cut start records = records := by
  induction records generalizing start with
  | nil => rfl
  | cons record records ih =>
    simp only [List.flatMap_cons, List.length_append] at whole
    rw [recordsBefore]
    rw [if_pos (by omega), ih (by omega)]

/-- A cut log gives exactly the records before the cut. -/
theorem readAll_take (consumes : Consumes reader) {encode : β → Bytes} {value : β → α}
    {records : List β}
    (reads : ∀ record ∈ records, reader.Reads (encode record) (value record)) (start cut : Nat) :
    readAll reader ((records.flatMap encode).take cut) =
      (recordsBefore encode (start + cut) start records).map value := by
  induction records generalizing start cut with
  | nil => simp [recordsBefore, readAll_nil consumes]
  | cons record records ih =>
    have first := reads record List.mem_cons_self
    rw [recordsBefore, List.flatMap_cons, List.take_append]
    by_cases whole : (encode record).length ≤ cut
    · have rest := ih (fun other member => reads other (List.mem_cons_of_mem _ member))
        (start + (encode record).length) (cut - (encode record).length)
      rw [show start + (encode record).length + (cut - (encode record).length) = start + cut by
          omega] at rest
      rw [if_pos (by omega), List.take_of_length_le whole, readAll_ok consumes (first.takes _), rest]
      rfl
    · have split_ : encode record = (encode record).take cut ++ (encode record).drop cut :=
        (List.take_append_drop ..).symm
      have more : (encode record).drop cut ≠ [] := by
        rw [ne_eq, List.drop_eq_nil_iff]
        exact whole
      obtain ⟨error, refused⟩ := first.needs _ _ split_ more
      rw [if_neg (by omega), show cut - (encode record).length = 0 by
          omega, List.take_zero, List.append_nil, readAll_error refused,
        recordsBefore_past (by omega)]
      rfl

end Wire
