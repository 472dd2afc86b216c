import OpenPosix.Mutexes.ScaleInvariant

/-!
# The chained list

What `main` does with the list depends on the links, the numbers and the memory of the elements
(`Record`), which no other thread writes to. While `main` creates children, the links lead from the
sentinel through all elements up to the last (`Chain`), whose own link is what `malloc` left there.
In the walk at the end the first `k` elements are joined and given back.
-/

namespace OpenPosix.Mutexes.Scale

open Interleaving

variable {s s' : State} {i j k ret : ℕ} {td td' : Element}

attribute [simp] State.points

/-- What only `main` writes. -/
structure Record where
  id : Option ℕ
  next : Link
  freed : Bool

def Element.record (td : Element) : Record := ⟨td.id, td.next, td.freed⟩

def State.records (s : State) : List Record := s.elements.map Element.record

/-- The last link of the list, which `main` never sets. -/
def endLink (records : List Record) : Link := (records.getLast?).elim .null Record.next

/-- The link to the element at a place, or past the last one. -/
def linkTo (records : List Record) (k : ℕ) : Link :=
  if k < records.length then .element k else endLink records

/-- The number of elements up to `cur`. -/
def MainPoint.linked (main : MainPoint) (size : ℕ) : ℕ := if main.filling then size - 1 else size

/-- The number of elements that a link leads to. -/
@[simp] def MainPoint.chained (main : MainPoint) (size : ℕ) : ℕ :=
  if main = .link then size - 1 else size

/-- The number of elements that have their number. -/
def MainPoint.numbered (main : MainPoint) (size : ℕ) : ℕ :=
  if main = .link ∨ main = .setId then size - 1 else size

/-- The place of the last of so many elements, which is the sentinel if there is none. -/
def place : ℕ → Option ℕ
  | 0 => none
  | k + 1 => some k

/-- What `main` knows about the list, with `k` elements given back. -/
def MainPoint.At (main : MainPoint) (records : List Record) (cur : Option ℕ) (sentinelNext : Link)
    (k : ℕ) : Prop :=
  match main with
  | .walk => k ≤ records.length ∧ sentinelNext = linkTo records k
  | .join i | .count i | .free i =>
    i = k ∧ k < records.length ∧ sentinelNext = linkTo records (k + 1)
  | .ended => k = records.length ∧ endLink records = .null
  | .undefined => k = records.length ∧ endLink records ≠ .null
  | main => k = 0 ∧ cur = place (main.linked records.length) ∧
      sentinelNext = if main.chained records.length = 0 then .null else .element 0

/-- What is known of the record at a place, when `numbered` elements have their number, a link leads
to `chained` of them, and the first `k` are given back. -/
structure Record.Fits (k numbered chained i : ℕ) (record : Record) : Prop where
  id : record.id = if i < numbered then some (i + 1) else none
  next : i + 1 < chained → record.next = .element (i + 1)
  freed : record.freed = true ↔ i < k

/-- The elements have the numbers 1, 2, … and form a list, and the first `k` are given back. -/
structure Chain (k : ℕ) (s : State) : Prop where
  fits : ∀ (i : ℕ) (record : Record), s.records[i]? = some record →
    record.Fits k (s.main.numbered s.records.length) (s.main.chained s.records.length) i
  at_main : s.main.At s.records s.cur s.sentinelNext k

theorem start_chain : Chain 0 start where
  fits _ _ h := by simp [start, State.records] at h
  at_main := ⟨rfl, rfl, rfl⟩

/-- The other threads leave the list alone. -/
theorem Chain.congr (h : Chain k s) (hrecords : s'.records = s.records) (hmain : s'.main = s.main)
    (hcur : s'.cur = s.cur) (hsentinel : s'.sentinelNext = s.sentinelNext) : Chain k s' := by
  obtain ⟨hfits, hat⟩ := h
  rw [← hrecords, ← hmain] at hfits hat
  rw [← hcur, ← hsentinel] at hat
  exact ⟨hfits, hat⟩

/-- `main` is not in the middle of adding an element, and has not begun to walk. -/
def MainPoint.plain : MainPoint → Bool
  | .lock | .malloc | .create _ | .unlock | .relock | .test | .stop | .broadcast
  | .unlockEnd => true
  | _ => false

theorem MainPoint.of_plain {main : MainPoint} (h : main.plain = true) (size : ℕ) :
    main.linked size = size ∧ main.chained size = size ∧ main.numbered size = size := by
  revert h
  cases main <;> simp [plain, linked, chained, numbered, filling]

/-- Before the walk. -/
theorem MainPoint.at_iff {main : MainPoint} (h : main.walking = false) {records : List Record}
    {cur : Option ℕ} {sentinelNext : Link} :
    main.At records cur sentinelNext k ↔ k = 0 ∧ cur = place (main.linked records.length) ∧
      sentinelNext = if main.chained records.length = 0 then .null else .element 0 := by
  cases main <;> first | rfl | simp [walking] at h

theorem MainPoint.not_walking_of_plain {main : MainPoint} (h : main.plain = true) :
    main.walking = false := by
  revert h
  cases main <;> simp [plain, walking]

theorem Chain.plain (h : Chain k s) (hmain : s.main.plain = true) (hmain' : s'.main.plain = true)
    (hrecords : s'.records = s.records) (hcur : s'.cur = s.cur)
    (hsentinel : s'.sentinelNext = s.sentinelNext) : Chain k s' := by
  obtain ⟨hlinked, hchained, hnumbered⟩ := MainPoint.of_plain hmain s.records.length
  obtain ⟨hlinked', hchained', hnumbered'⟩ := MainPoint.of_plain hmain' s.records.length
  refine ⟨?_, ?_⟩
  · have hfits := h.fits
    rw [hnumbered, hchained] at hfits
    rw [hrecords, hnumbered', hchained']
    exact hfits
  · have hat := (MainPoint.at_iff (MainPoint.not_walking_of_plain hmain)).mp h.at_main
    rw [hlinked, hchained] at hat
    rw [hrecords, hcur, hsentinel, MainPoint.at_iff (MainPoint.not_walking_of_plain hmain'),
      hlinked', hchained']
    exact hat

/-! ### A new element -/

variable {f : Element → Element}

/-- `cur->id` is the number of the last element in the list. -/
theorem Chain.curId (h : Chain k s) (hcur : s.cur = place j)
    (hnumbered : j ≤ s.main.numbered s.records.length) (hlength : j ≤ s.records.length) :
    s.curId = some j := by
  unfold State.curId
  cases j with
  | zero => rw [hcur]; rfl
  | succ j =>
    rw [hcur]
    have hlt : j < s.elements.length := Nat.lt_of_succ_le (by simpa [State.records] using hlength)
    have hget : s.records[j]? = some (s.elements[j].record) := by
      simp [State.records, hlt]
    have hid := (h.fits j _ hget).id
    rw [if_pos (Nat.lt_of_succ_le hnumbered)] at hid
    simpa [place, hlt, Element.record] using hid

theorem getElem?_concat_eq_some {α : Type*} {list : List α} {last value : α}
    (h : (list ++ [last])[i]? = some value) :
    list[i]? = some value ∨ i = list.length ∧ value = last := by
  rcases Nat.lt_trichotomy i list.length with hlt | rfl | hgt
  · rw [List.getElem?_append_left hlt] at h
    exact .inl h
  · simp only [List.getElem?_concat_length, Option.some.injEq] at h
    exact .inr ⟨rfl, h.symm⟩
  · rw [getElem?_concat_of_length_lt last hgt] at h
    cases h

theorem Chain.create {next : Link} (h : Chain k s) (hmain : s.main = .create next) :
    Chain k { s with main := .link, elements := s.elements ++ [newElement next] } := by
  obtain ⟨hfits, hat⟩ := h
  rw [hmain] at hfits hat
  obtain ⟨rfl, hcur, hsentinel⟩ := (MainPoint.at_iff rfl).mp hat
  have hrecords : (s.elements ++ [newElement next]).map Element.record =
      s.records ++ [⟨none, next, false⟩] := by
    simp [State.records, Element.record, newElement]
  have hlength : (s.records ++ [(⟨none, next, false⟩ : Record)]).length = s.records.length + 1 := by
    simp
  constructor <;> rw [State.records, hrecords]
  · rw [hlength]
    intro i record hi
    obtain hi | ⟨rfl, rfl⟩ := getElem?_concat_eq_some hi
    · exact hfits i record hi
    · exact ⟨(if_neg (lt_irrefl _)).symm, fun hlt ↦ absurd hlt (by simp), by simp⟩
  · rw [MainPoint.at_iff rfl, hlength]
    exact ⟨rfl, hcur, hsentinel⟩

theorem records_of_modify {g : Record → Record} (helements : s'.elements = s.elements.modify i f)
    (hf : ∀ td, (f td).record = g td.record) : s'.records = s.records.modify i g := by
  unfold State.records
  ext1 j
  rw [helements, List.getElem?_map, List.getElem?_modify, List.getElem?_modify, List.getElem?_map]
  cases s.elements[j]? with
  | none => rfl
  | some td => by_cases heq : i = j <;> simp [heq, hf]

theorem records_of_modify_same (helements : s'.elements = s.elements.modify i f)
    (hf : ∀ td, (f td).record = td.record) : s'.records = s.records := by
  rw [State.records, helements, map_modify_of_same hf]
  rfl

theorem getElem?_modify_eq_some {α : Type*} {list : List α} {f : α → α} {value : α}
    (h : (list.modify i f)[j]? = some value) :
    ∃ before, list[j]? = some before ∧ value = if i = j then f before else before := by
  rw [List.getElem?_modify] at h
  obtain ⟨before, hbefore, rfl⟩ := Option.map_eq_some_iff.mp h
  exact ⟨before, hbefore, rfl⟩

/-- `main` writes to one element. -/
theorem fits_modify {records : List Record} {f : Record → Record}
    {k k' numbered numbered' chained chained' : ℕ}
    (h : ∀ (j : ℕ) (record : Record), records[j]? = some record → record.Fits k numbered chained j)
    (hself : ∀ record : Record, record.Fits k numbered chained i →
      (f record).Fits k' numbered' chained' i)
    (hothers : ∀ j, j ≠ i → j < records.length → ∀ record : Record,
      record.Fits k numbered chained j → record.Fits k' numbered' chained' j)
    (j : ℕ) (record : Record) (hj : (records.modify i f)[j]? = some record) :
    record.Fits k' numbered' chained' j := by
  obtain ⟨before, hget, rfl⟩ := getElem?_modify_eq_some hj
  split_ifs with heq
  · subst heq
    exact hself before (h i before hget)
  · exact hothers j (Ne.symm heq) (List.getElem?_eq_some_iff.mp hget).1 before (h j before hget)

/-- The link of the sentinel is set. -/
theorem Chain.link_first (h : Chain k s) (hmain : s.main = .link) (hone : s.records.length = 1)
    (hmain' : s'.main = .setId) (hrecords : s'.records = s.records) (hcur : s'.cur = s.cur)
    (hsentinel : s'.sentinelNext = .element 0) : Chain k s' := by
  obtain ⟨hfits, hat⟩ := h
  rw [hmain, hone] at hfits
  rw [hmain] at hat
  obtain ⟨rfl, hbefore, -⟩ := (MainPoint.at_iff rfl).mp hat
  rw [hone] at hbefore
  constructor <;> rw [hmain', hrecords]
  · rw [hone]
    intro i record hi
    obtain ⟨hid, -, hfreed⟩ := hfits i record hi
    exact ⟨hid, fun hlt ↦ absurd hlt (by simp), hfreed⟩
  · rw [MainPoint.at_iff rfl, hcur, hsentinel, hone]
    exact ⟨rfl, hbefore, rfl⟩

/-- The link of the element before the new one is set. -/
theorem Chain.link_next {size : ℕ} (h : Chain k s) (hmain : s.main = .link)
    (hsize : s.records.length = size + 2) (hmain' : s'.main = .setId)
    (hrecords : s'.records = s.records.modify size fun record ↦
      { record with next := .element (size + 1) }) (hcur : s'.cur = s.cur)
    (hsentinel : s'.sentinelNext = s.sentinelNext) : Chain k s' := by
  obtain ⟨hfits, hat⟩ := h
  have hlength : s'.records.length = size + 2 := by rw [hrecords, List.length_modify, hsize]
  rw [hmain, hsize] at hfits
  rw [hmain] at hat
  obtain ⟨rfl, hbefore, hfirst⟩ := (MainPoint.at_iff rfl).mp hat
  rw [hsize] at hbefore hfirst
  constructor <;> rw [hmain']
  · rw [hlength, hrecords]
    refine fits_modify hfits (fun record hrecord ↦ ?_) fun j hj _ record hrecord ↦ ?_
    · exact ⟨hrecord.id, fun _ ↦ rfl, hrecord.freed⟩
    · exact ⟨hrecord.id, fun hlt ↦ hrecord.next (show j + 1 < size + 1 by simp at hlt; omega),
        hrecord.freed⟩
  · rw [MainPoint.at_iff rfl, hcur, hsentinel, hlength]
    exact ⟨rfl, hbefore, hfirst⟩

theorem State.last_eq {size : ℕ} (hsize : s.records.length = size + 1) : s.last = size := by
  have hlength : s.elements.length = size + 1 := by simpa [State.records] using hsize
  simp [State.last, hlength]

theorem Chain.link {size : ℕ} (h : Chain k s) (hmain : s.main = .link)
    (hsize : s.records.length = size + 1) :
    Chain k { s.setCurNext (.element s.last) with main := .setId } := by
  obtain ⟨-, hcur, -⟩ := (MainPoint.at_iff (by rw [hmain]; rfl)).mp h.at_main
  rw [hmain, hsize] at hcur
  rw [State.last_eq hsize]
  unfold State.setCurNext
  cases size with
  | zero =>
    have hnone : s.cur = none := hcur
    refine h.link_first hmain hsize rfl ?_ ?_ ?_ <;> simp [hnone, State.records]
  | succ size =>
    have hsome : s.cur = some size := hcur
    refine h.link_next hmain hsize rfl ?_ ?_ ?_
    · simp only [hsome]
      exact records_of_modify rfl fun _ ↦ rfl
    · simp [hsome]
    · simp [hsome]

/-- The number of the new element is set. -/
theorem Chain.number {size : ℕ} (h : Chain k s) (hmain : s.main = .setId)
    (hsize : s.records.length = size + 1) (hmain' : s'.main = .setError)
    (hrecords : s'.records = s.records.modify size fun record ↦
      { record with id := some (size + 1) }) (hcur : s'.cur = s.cur)
    (hsentinel : s'.sentinelNext = s.sentinelNext) : Chain k s' := by
  obtain ⟨hfits, hat⟩ := h
  have hlength : s'.records.length = size + 1 := by rw [hrecords, List.length_modify, hsize]
  rw [hmain, hsize] at hfits
  rw [hmain] at hat
  obtain ⟨rfl, hbefore, hfirst⟩ := (MainPoint.at_iff rfl).mp hat
  rw [hsize] at hbefore hfirst
  constructor <;> rw [hmain']
  · rw [hlength, hrecords]
    refine fits_modify hfits (fun record hrecord ↦ ?_) fun j hj hlt record hrecord ↦ ?_
    · exact ⟨(if_pos size.lt_succ_self).symm, hrecord.next, hrecord.freed⟩
    · have hbefore : record.id = if j < size then some (j + 1) else none := hrecord.id
      rw [if_pos (by omega)] at hbefore
      exact ⟨hbefore.trans (if_pos (hsize ▸ hlt)).symm, hrecord.next, hrecord.freed⟩
  · rw [MainPoint.at_iff rfl, hcur, hsentinel, hlength]
    exact ⟨rfl, hbefore, hfirst⟩

theorem Chain.setId {size : ℕ} (h : Chain k s) (hmain : s.main = .setId)
    (hsize : s.records.length = size + 1) :
    Chain k { s with
      main := .setError
      elements := s.elements.modify s.last fun tmp ↦ { tmp with id := s.curId.map (· + 1) } } := by
  obtain ⟨-, hcur, -⟩ := (MainPoint.at_iff (by rw [hmain]; rfl)).mp h.at_main
  rw [hmain, hsize] at hcur
  have hid : s.curId = some size := by
    refine h.curId hcur ?_ ?_ <;> simp [hmain, hsize, MainPoint.numbered]
  refine h.number hmain hsize rfl ?_ rfl rfl
  rw [State.last_eq hsize, hid]
  exact records_of_modify rfl fun _ ↦ rfl

/-- The new element becomes the last one of the list. -/
theorem Chain.setError {size : ℕ} (h : Chain k s) (hmain : s.main = .setError)
    (hsize : s.records.length = size + 1) (hmain' : s'.main = .unlock)
    (hrecords : s'.records = s.records) (hcur : s'.cur = some size)
    (hsentinel : s'.sentinelNext = s.sentinelNext) : Chain k s' := by
  obtain ⟨hfits, hat⟩ := h
  rw [hmain] at hfits hat
  obtain ⟨rfl, -, hfirst⟩ := (MainPoint.at_iff rfl).mp hat
  constructor <;> rw [hmain', hrecords]
  · exact hfits
  · rw [MainPoint.at_iff rfl, hcur, hsentinel, hsize]
    rw [hsize] at hfirst
    exact ⟨rfl, rfl, hfirst⟩

/-! ### The walk -/

theorem MainPoint.of_walk {main : MainPoint} (h : main.walking = true) (size : ℕ) :
    main.chained size = size ∧ main.numbered size = size := by
  revert h
  cases main <;> simp [walking, chained, numbered]

/-- The list itself does not change in the walk. -/
theorem Chain.walks {j : ℕ} (h : Chain k s)
    (hmain : ∀ size, s.main.chained size = size ∧ s.main.numbered size = size)
    (hmain' : s'.main.walking = true) (hrecords : s'.records = s.records) (hj : j = k)
    (hat : s'.main.At s.records s'.cur s'.sentinelNext j) : Chain j s' := by
  subst hj
  obtain ⟨hchained, hnumbered⟩ := hmain s.records.length
  obtain ⟨hchained', hnumbered'⟩ := MainPoint.of_walk hmain' s.records.length
  refine ⟨?_, by rwa [hrecords]⟩
  have hfits := h.fits
  rw [hnumbered, hchained] at hfits
  rw [hrecords, hnumbered', hchained']
  exact hfits

theorem linkTo_zero (records : List Record) :
    linkTo records 0 = if records.length = 0 then .null else .element 0 := by
  cases records with
  | nil => rfl
  | cons first rest => simp [linkTo]

theorem Chain.unlockEnd (h : Chain k s) (hmain : s.main = .unlockEnd) :
    Chain k { s with main := .walk, m := none, cur := none } := by
  obtain ⟨rfl, -, hfirst⟩ := (MainPoint.at_iff (by rw [hmain]; rfl)).mp h.at_main
  refine h.walks (MainPoint.of_plain (by rw [hmain]; rfl) · |>.2) rfl rfl rfl ⟨Nat.zero_le _, ?_⟩
  rw [linkTo_zero]
  rw [hmain] at hfirst
  exact hfirst

/-- The link of an element leads to the next one, or past the last. -/
theorem Chain.next_eq (h : Chain k s) (hmain : s.main.walking = true) {record : Record}
    (hi : s.records[i]? = some record) : record.next = linkTo s.records (i + 1) := by
  have hlt : i < s.records.length := (List.getElem?_eq_some_iff.mp hi).1
  unfold linkTo
  split_ifs with hnext
  · exact (h.fits i record hi).next (by rwa [(MainPoint.of_walk hmain _).1])
  · have hlast : i = s.records.length - 1 := by omega
    rw [endLink, List.getLast?_eq_getElem?, ← hlast, hi]
    rfl

theorem getElem?_records (hget : s.elements[i]? = some td) : s.records[i]? = some td.record := by
  simp [State.records, hget]

theorem exists_getElem? (hlt : i < s.records.length) : ∃ td, s.elements[i]? = some td :=
  ⟨_, List.getElem?_eq_getElem (by simpa [State.records] using hlt)⟩

/-- Past the last element, `main` goes by a link that it never set. -/
theorem Chain.walk_end (h : Chain k s) (hmain : s.main = .walk) (hall : k = s.records.length)
    (hnext : main s ret = some s') : Chain k s' := by
  have hwalk : s.main.walking = true := by rw [hmain]; rfl
  have hsame := MainPoint.of_walk hwalk
  have hat := h.at_main
  rw [hmain] at hat
  simp only [main, hmain] at hnext
  have hlink : s.sentinelNext = endLink s.records := by
    rw [hat.2, linkTo, if_neg hall.not_lt]
  rw [hlink] at hnext
  split at hnext
  case h_1 hend =>
    cases hnext
    exact h.walks hsame rfl rfl rfl ⟨hall, hend⟩
  case h_2 hend =>
    cases hnext
    exact h.walks hsame rfl rfl rfl ⟨hall, by simp [hend]⟩
  case h_3 i hend =>
    split at hnext
    case h_1 =>
      cases hnext
      exact h.walks hsame rfl rfl rfl ⟨hall, by simp [hend]⟩
    case h_2 tmp hget =>
      have hrecord := getElem?_records hget
      have hfreed : tmp.freed = true := (h.fits i _ hrecord).freed.mpr
        (hall ▸ (List.getElem?_eq_some_iff.mp hrecord).1)
      rw [if_pos hfreed] at hnext
      cases hnext
      exact h.walks hsame rfl rfl rfl ⟨hall, by simp [hend]⟩

theorem Chain.walk (h : Chain k s) (hmain : s.main = .walk) (hnext : main s ret = some s') :
    Chain k s' := by
  have hwalk : s.main.walking = true := by rw [hmain]; rfl
  have hat := h.at_main
  rw [hmain] at hat
  rcases hat.1.lt_or_eq with hlt | hall
  · obtain ⟨tmp, hget⟩ := exists_getElem? hlt
    have hrecord := getElem?_records hget
    have hfreed : ¬ tmp.freed = true :=
      fun hfreed ↦ lt_irrefl k ((h.fits k _ hrecord).freed.mp hfreed)
    simp only [main, hmain] at hnext
    rw [hat.2, linkTo, if_pos hlt] at hnext
    simp only [hget, if_neg hfreed] at hnext
    cases hnext
    exact h.walks (MainPoint.of_walk hwalk) rfl rfl rfl ⟨rfl, hlt, h.next_eq hwalk hrecord⟩
  · exact h.walk_end hmain hall hnext

/-- A change of another element, or of other fields, does not change the last link. -/
theorem endLink_modify {f : Record → Record} {records : List Record}
    (h : i + 1 = records.length → ∀ record, (f record).next = record.next) :
    endLink (records.modify i f) = endLink records := by
  unfold endLink
  rw [List.getLast?_eq_getElem?, List.getLast?_eq_getElem?, List.length_modify,
    List.getElem?_modify]
  cases hlast : records[records.length - 1]? with
  | none => rfl
  | some record =>
    have hpos := (List.getElem?_eq_some_iff.mp hlast).1
    by_cases heq : i = records.length - 1
    · simp [heq, h (by omega)]
    · simp [heq]

theorem linkTo_modify {f : Record → Record} (hf : ∀ record, (f record).next = record.next)
    (records : List Record) (i k : ℕ) : linkTo (records.modify i f) k = linkTo records k := by
  unfold linkTo
  rw [endLink_modify fun _ ↦ hf, List.length_modify]

/-- An element is given back. -/
theorem Chain.free (h : Chain k s) (hmain : s.main = .free i) (hmain' : s'.main = .walk)
    (hrecords : s'.records = s.records.modify i fun record ↦ { record with freed := true })
    (hsentinel : s'.sentinelNext = s.sentinelNext) : i = k ∧ Chain (k + 1) s' := by
  have hat := h.at_main
  rw [hmain] at hat
  obtain ⟨rfl, hlt, hlink⟩ := hat
  refine ⟨rfl, ?_⟩
  have hfits := h.fits
  rw [hmain] at hfits
  constructor <;> rw [hmain', hrecords]
  · rw [List.length_modify]
    refine fits_modify hfits (fun record hrecord ↦ ?_) fun j hj _ record hrecord ↦ ?_
    · exact ⟨hrecord.id, hrecord.next, iff_of_true rfl i.lt_succ_self⟩
    · exact ⟨hrecord.id, hrecord.next, hrecord.freed.trans (by omega)⟩
  · rw [hsentinel, hlink]
    refine ⟨by rwa [List.length_modify], (linkTo_modify ?_ _ _ _).symm⟩
    exact fun _ ↦ rfl

/-! ### The elements that are joined and counted -/

/-- The number of elements whose child `main` has joined. -/
def MainPoint.joined (main : MainPoint) (k : ℕ) : ℕ :=
  match main with
  | .count _ | .free _ => k + 1
  | _ => k

/-- The number of elements whose error `main` has counted. -/
def MainPoint.counted (main : MainPoint) (k : ℕ) : ℕ :=
  match main with
  | .free _ => k + 1
  | _ => k

theorem MainPoint.counted_le_joined (main : MainPoint) (k : ℕ) :
    main.counted k ≤ main.joined k := by
  cases main <;> simp [counted, joined]

/-- The children that were joined have ended, and `errors` counts their errors. -/
structure Tally (k : ℕ) (s : State) : Prop where
  returned : ∀ i td, s.elements[i]? = some td → i < s.main.joined k → td.child = .returned
  errors : s.errors = (s.elements.take (s.main.counted k)).countP Element.failed

theorem start_tally : Tally 0 start where
  returned _ _ h := by simp [start] at h
  errors := rfl

theorem Tally.step {fails : Bool} (h : Tally k s) (hok : td.Ok)
    (hstep : ElementStep i fails s s' td td') : Tally k s' := by
  have hle : s.main.joined k ≤ i := by
    by_contra hlt
    exact hstep.alive (hok.done (h.returned i td hstep.before (not_le.mp hlt)))
  refine ⟨fun j other hj hlt ↦ ?_, ?_⟩
  · rw [hstep.step.main] at hlt
    rw [hstep.elements, List.getElem?_set_ne (by omega)] at hj
    exact h.returned j other hj hlt
  · rw [hstep.step.main, hstep.elements, hstep.frame.2.2,
      List.take_set_of_le (le_trans (s.main.counted_le_joined k) hle)]
    exact h.errors

/-- Nothing is joined before the walk. -/
theorem Tally.builds (h : Tally k s) (hzero : k = 0) (hmain : s.main.counted 0 = 0)
    (hmain' : s'.main.joined 0 = 0) (herrors : s'.errors = s.errors) : Tally k s' := by
  subst hzero
  refine ⟨fun i td _ hlt ↦ ?_, ?_⟩
  · rw [hmain'] at hlt
    exact absurd hlt (Nat.not_lt_zero i)
  · have hcounted := Nat.le_zero.mp (hmain' ▸ s'.main.counted_le_joined 0)
    rw [herrors, h.errors, hmain, hcounted, List.take_zero, List.take_zero]

/-- The walk goes on with the elements as they are. -/
theorem Tally.walks (h : Tally k s) (helements : s'.elements = s.elements)
    (hjoined : s'.main.joined k = s.main.joined k) (hcounted : s'.main.counted k = s.main.counted k)
    (herrors : s'.errors = s.errors) : Tally k s' := by
  refine ⟨?_, ?_⟩
  · rw [helements, hjoined]
    exact h.returned
  · rw [helements, hcounted, herrors]
    exact h.errors

theorem Tally.join (h : Tally k s) (hmain : s.main = .join k)
    (hjoined : (s.elements[k]?).map Element.child = some .returned) :
    Tally k { s with main := .count k } := by
  obtain ⟨hreturned, herrors⟩ := h
  rw [hmain] at hreturned herrors
  refine ⟨fun i td hi hlt ↦ ?_, herrors⟩
  rcases Nat.lt_succ_iff_lt_or_eq.mp hlt with hlt | rfl
  · exact hreturned i td hi hlt
  · have hget : s.elements[i]? = some td := hi
    simpa [hget] using hjoined

theorem failed_iff_error_ne (htried : td.error.isSome = true) :
    (if td.error = some 0 then 0 else 1) = if td.failed then 1 else 0 := by
  obtain ⟨error, herror⟩ := Option.isSome_iff_exists.mp htried
  by_cases hzero : error = 0 <;> simp [herror, hzero]

theorem Tally.count (h : Tally k s) (hmain : s.main = .count k) (hget : s.elements[k]? = some td)
    (hok : td.Ok) : Tally k { s with
      main := .free k
      errors := s.errors + if (s.elements[k]?).bind Element.error = some 0 then 0 else 1 } := by
  obtain ⟨hreturned, herrors⟩ := h
  rw [hmain] at hreturned herrors
  have htried : td.error.isSome = true := by
    refine hok.tried ?_
    rw [hreturned k td hget (Nat.lt_succ_self k)]
    rfl
  refine ⟨hreturned, ?_⟩
  show s.errors + _ = (s.elements.take (k + 1)).countP Element.failed
  rw [List.take_add_one, List.countP_append, hget, herrors, Option.bind_some,
    failed_iff_error_ne htried]
  simp [MainPoint.counted, List.countP_singleton]

theorem countP_take_of_map_eq {elements elements' : List Element}
    (h : elements'.map Element.failed = elements.map Element.failed) (n : ℕ) :
    (elements'.take n).countP Element.failed = (elements.take n).countP Element.failed := by
  have hcount (list : List Element) :
      (list.take n).countP Element.failed = ((list.map Element.failed).take n).countP id := by
    rw [← List.map_take, List.countP_map]
    rfl
  rw [hcount, hcount, h]

theorem Tally.free (h : Tally k s) (hmain : s.main = .free k) : Tally (k + 1) { s with
      main := .walk
      elements := s.elements.modify k fun tmp ↦ { tmp with freed := true } } := by
  obtain ⟨hreturned, herrors⟩ := h
  rw [hmain] at hreturned herrors
  refine ⟨fun i td hi hlt ↦ ?_, ?_⟩
  · obtain ⟨before, hget, rfl⟩ := getElem?_modify_eq_some hi
    rw [apply_ite Element.child, ite_self]
    exact hreturned i before hget hlt
  · show s.errors = ((s.elements.modify k _).take (k + 1)).countP Element.failed
    have hsame : (s.elements.modify k fun tmp ↦ { tmp with freed := true }).map Element.failed =
        s.elements.map Element.failed := by
      refine map_modify_of_same ?_ _ _
      exact fun _ ↦ rfl
    rw [countP_take_of_map_eq hsame]
    exact herrors

/-! ### The invariant -/

/-- What holds with `k` elements given back, as long as the process has not ended with `UNRESOLVED`.
-/
structure Inv (k : ℕ) (s : State) : Prop where
  sync : Sync s
  ok : ∀ (i : ℕ) (td : Element), s.elements[i]? = some td → td.Ok
  chain : Chain k s
  tally : Tally k s

theorem start_inv : Inv 0 start where
  sync := start_sync
  ok _ _ h := by simp [start] at h
  chain := start_chain
  tally := start_tally

theorem ElementStep.records_eq {fails : Bool} (hstep : ElementStep i fails s s' td td') :
    s'.records = s.records := by
  obtain ⟨hid, hnext, hfreed⟩ := hstep.same
  have hrecord : td'.record = td.record := by
    simp only [Element.record, hid, hnext, hfreed]
  rw [State.records, hstep.elements, List.map_set, hrecord]
  refine List.ext_getElem? fun j ↦ ?_
  by_cases heq : i = j
  · subst heq
    have hlt := (List.getElem?_eq_some_iff.mp hstep.before).1
    rw [List.getElem?_set_self (by simpa using hlt), getElem?_records hstep.before]
  · rw [List.getElem?_set_ne heq]
    rfl

theorem Inv.step {fails : Bool} (h : Inv k s) (hstep : ElementStep i fails s s' td td') :
    Inv k s' := by
  have hok := h.ok i td hstep.before
  obtain ⟨hsentinel, hcur, -⟩ := hstep.frame
  refine ⟨h.sync.move hstep.step, fun j other hj ↦ ?_,
    h.chain.congr hstep.records_eq hstep.step.main hcur hsentinel, h.tally.step hok hstep⟩
  rw [hstep.elements] at hj
  by_cases heq : i = j
  · subst heq
    rw [List.getElem?_set_self (List.getElem?_eq_some_iff.mp hstep.before).1] at hj
    obtain rfl := Option.some.inj hj
    exact hstep.ok hok
  · rw [List.getElem?_set_ne heq] at hj
    exact h.ok j other hj

theorem MainPoint.joined_of_not_walking {main : MainPoint} (h : main.walking = false) (k : ℕ) :
    main.joined k = k ∧ main.counted k = k := by
  revert h
  cases main <;> simp [walking, joined, counted]

theorem Inv.zero (h : Inv k s) (hmain : s.main.walking = false) : k = 0 :=
  ((MainPoint.at_iff hmain).mp h.chain.at_main).1

theorem Inv.tally_builds (h : Inv k s) (hmain : s.main.walking = false)
    (hmain' : s'.main.joined 0 = 0) (herrors : s'.errors = s.errors) : Tally k s' :=
  h.tally.builds (h.zero hmain) (MainPoint.joined_of_not_walking hmain 0).2 hmain' herrors

/-- A step before the walk that leaves the list alone. -/
theorem Inv.plain (h : Inv k s) (hmain : s.main.plain = true) (hmain' : s'.main.plain = true)
    (hrecords : s'.records = s.records) (hcur : s'.cur = s.cur)
    (hsentinel : s'.sentinelNext = s.sentinelNext) (herrors : s'.errors = s.errors) :
    Chain k s' ∧ Tally k s' := by
  have hnot := MainPoint.not_walking_of_plain hmain'
  exact ⟨h.chain.plain hmain hmain' hrecords hcur hsentinel,
    h.tally_builds (MainPoint.not_walking_of_plain hmain)
      (MainPoint.joined_of_not_walking hnot 0).1 herrors⟩

theorem Inv.size (h : Inv k s) (hmain : s.main.filling = true) :
    s.records.length = s.counter + 1 := by
  have hlength : s.records.length = s.points.length := by simp [State.records]
  rw [hlength, (h.sync.filling hmain).2]

theorem records_map_wake (elements : List Element) :
    (elements.map Element.wake).map Element.record = elements.map Element.record := by
  rw [List.map_map]
  refine List.map_congr_left fun td _ ↦ ?_
  show td.wake.record = td.record
  unfold Element.wake
  split_ifs <;> rfl

/-- `main` leaves the last link alone, and a new element brings its own. -/
def LinkKept (s s' : State) : Prop :=
  (∀ link, s'.main ≠ .create link) ∧
    (endLink s'.records = endLink s.records ∨ s.main = .create (endLink s'.records))

/-- `main` is about to create the threads of an element. -/
def MainPoint.creates : MainPoint → Bool
  | .create _ => true
  | _ => false

theorem linkKept_of_creates (hmain' : s'.main.creates = false)
    (hkept : endLink s'.records = endLink s.records ∨ s.main = .create (endLink s'.records)) :
    LinkKept s s' := by
  refine ⟨fun link hlink ↦ ?_, hkept⟩
  rw [hlink] at hmain'
  cases hmain'

theorem endLink_setCurNext (h : Chain k s) (hmain : s.main = .link) (link : Link) :
    endLink (s.setCurNext link).records = endLink s.records := by
  obtain ⟨-, hcur, -⟩ := (MainPoint.at_iff (by rw [hmain]; rfl)).mp h.at_main
  rw [hmain] at hcur
  unfold State.setCurNext
  split
  case h_1 => rfl
  case h_2 i hi =>
    have hplace : place (s.records.length - 1) = some i := hcur.symm.trans hi
    have hne : i + 1 ≠ s.records.length := by
      intro heq
      rw [← heq, Nat.add_sub_cancel] at hplace
      cases i with
      | zero => cases hplace
      | succ i => simp [place] at hplace
    have hrecords : State.records { s with
        elements := s.elements.modify i fun cur ↦ { cur with next := link } } =
        s.records.modify i fun record ↦ { record with next := link } :=
      records_of_modify rfl fun _ ↦ rfl
    rw [hrecords, endLink_modify fun heq ↦ absurd heq hne]

/-- A step of `main` leaves the list, the account of the joins and the last link in order. -/
def Listed (k : ℕ) (s s' : State) : Prop := (Chain k s' ∧ Tally k s') ∧ LinkKept s s'

theorem listed_of_eq (hlist : Chain k s' ∧ Tally k s') (hmain' : s'.main.creates = false)
    (hlink : endLink s'.records = endLink s.records) : Listed k s s' :=
  ⟨hlist, linkKept_of_creates hmain' (.inl hlink)⟩

theorem Inv.listed_setId (h : Inv k s) (hmain : s.main = .setId) : Listed k s { s with
    main := .setError
    elements := s.elements.modify s.last fun tmp ↦ { tmp with id := s.curId.map (· + 1) } } := by
  have hrecords : State.records { s with
      main := .setError
      elements := s.elements.modify s.last fun tmp ↦ { tmp with id := s.curId.map (· + 1) } } =
      s.records.modify s.last fun record ↦ { record with id := s.curId.map (· + 1) } :=
    records_of_modify rfl fun _ ↦ rfl
  refine listed_of_eq ⟨h.chain.setId hmain (h.size (by rw [hmain]; rfl)),
    h.tally_builds (by rw [hmain]; rfl) rfl rfl⟩ rfl ?_
  rw [hrecords]
  exact endLink_modify fun _ _ ↦ rfl

theorem Inv.listed_setError (h : Inv k s) (hmain : s.main = .setError) : Listed k s { s with
    main := .unlock
    elements := s.elements.modify s.last fun tmp ↦ { tmp with error := some 0 }
    cur := some s.last } := by
  have hsize := h.size (by rw [hmain]; rfl)
  have hrecords : State.records { s with
      main := .unlock
      elements := s.elements.modify s.last fun tmp ↦ { tmp with error := some 0 }
      cur := some s.last } = s.records :=
    records_of_modify_same rfl fun _ ↦ rfl
  refine listed_of_eq ⟨h.chain.setError hmain hsize rfl hrecords ?_ rfl,
    h.tally_builds (by rw [hmain]; rfl) rfl rfl⟩ rfl (by rw [hrecords])
  rw [State.last_eq hsize]

theorem Inv.listed_walk {main' : MainPoint} {link : Link} (h : Inv k s) (hmain : s.main = .walk)
    (hends : main' = .ended ∨ main' = .undefined ∨ ∃ i, main' = .join i)
    (hnext : Scale.main s ret = some { s with main := main', sentinelNext := link }) :
    Listed k s { s with main := main', sentinelNext := link } := by
  refine listed_of_eq ⟨h.chain.walk hmain hnext, h.tally.walks rfl ?_ ?_ rfl⟩ ?_ rfl
  · rw [hmain]
    obtain rfl | rfl | ⟨i, rfl⟩ := hends <;> rfl
  · rw [hmain]
    obtain rfl | rfl | ⟨i, rfl⟩ := hends <;> rfl
  · obtain rfl | rfl | ⟨i, rfl⟩ := hends <;> rfl

theorem Inv.listed_free (h : Inv k s) (hmain : s.main = .free i) : Listed (i + 1) s { s with
    main := .walk
    elements := s.elements.modify i fun tmp ↦ { tmp with freed := true } } := by
  have hrecords : State.records { s with
      main := .walk
      elements := s.elements.modify i fun tmp ↦ { tmp with freed := true } } =
      s.records.modify i fun record ↦ { record with freed := true } :=
    records_of_modify rfl fun _ ↦ rfl
  obtain ⟨rfl, hchain⟩ := h.chain.free hmain rfl hrecords rfl
  refine listed_of_eq ⟨hchain, h.tally.free hmain⟩ rfl ?_
  rw [hrecords]
  exact endLink_modify fun _ _ ↦ rfl

theorem Inv.list_main (h : Inv k s) (hnext : main s ret = some s') :
    s'.main = .unresolved ∨ ∃ k, Listed k s s' := by
  cases mainStep hnext with
  | unresolved => exact .inl rfl
  | lock hmain _ | relock hmain _ | refused hmain | unlock hmain | stop hmain =>
    exact .inr ⟨k, listed_of_eq (h.plain (by rw [hmain]; rfl) rfl rfl rfl rfl rfl) rfl rfl⟩
  | create hmain =>
    refine .inr ⟨k, ⟨h.chain.create hmain, h.tally_builds (by rw [hmain]; rfl) rfl rfl⟩,
      linkKept_of_creates rfl (.inr ?_)⟩
    simp [hmain, endLink, State.records, newElement, Element.record]
  | link hmain =>
    obtain ⟨-, -, -, -, herrors⟩ := setCurNext_frame s (.element s.last)
    exact .inr ⟨k, listed_of_eq ⟨h.chain.link hmain (h.size (by rw [hmain]; rfl)),
      h.tally_builds (by rw [hmain]; rfl) rfl herrors⟩ rfl (endLink_setCurNext h.chain hmain _)⟩
  | setId hmain => exact .inr ⟨k, h.listed_setId hmain⟩
  | setError hmain => exact .inr ⟨k, h.listed_setError hmain⟩
  | test hmain =>
    refine .inr ⟨k, listed_of_eq (h.plain (by rw [hmain]; rfl) ?_ rfl rfl rfl rfl) ?_ rfl⟩ <;>
      dsimp only <;> split_ifs <;> rfl
  | broadcast hmain =>
    have hrecords := records_map_wake s.elements
    exact .inr ⟨k, listed_of_eq (h.plain (by rw [hmain]; rfl) rfl hrecords rfl rfl rfl) rfl
      (congrArg endLink hrecords)⟩
  | unlockEnd hmain =>
    exact .inr ⟨k, listed_of_eq ⟨h.chain.unlockEnd hmain,
      h.tally_builds (by rw [hmain]; rfl) rfl rfl⟩ rfl rfl⟩
  | walk hmain hends => exact .inr ⟨k, h.listed_walk hmain hends hnext⟩
  | @join i hmain hjoined =>
    have hat := h.chain.at_main
    rw [hmain] at hat
    obtain ⟨rfl, hlt, hlink⟩ := hat
    exact .inr ⟨i, listed_of_eq ⟨h.chain.walks (MainPoint.of_walk (by rw [hmain]; rfl)) rfl rfl rfl
      ⟨rfl, hlt, hlink⟩, h.tally.join hmain hjoined⟩ rfl rfl⟩
  | @count i hmain =>
    have hat := h.chain.at_main
    rw [hmain] at hat
    obtain ⟨rfl, hlt, hlink⟩ := hat
    obtain ⟨td, hget⟩ := exists_getElem? hlt
    exact .inr ⟨i, listed_of_eq ⟨h.chain.walks (MainPoint.of_walk (by rw [hmain]; rfl)) rfl rfl rfl
      ⟨rfl, hlt, hlink⟩, h.tally.count hmain hget (h.ok i td hget)⟩ rfl rfl⟩
  | @free i hmain => exact .inr ⟨i + 1, h.listed_free hmain⟩

/-! ### What `main` does to the elements -/

/-- `main` changes nothing that concerns the locks of the test mutexes. -/
def Keeps (s s' : State) : Prop :=
  s'.elements.length = s.elements.length ∧ ∀ (i : ℕ) (td td' : Element),
    s.elements[i]? = some td → s'.elements[i]? = some td' → td'.Ok ∧ td'.failed = td.failed

theorem Inv.keeps_of_eq (h : Inv k s) (helements : s'.elements = s.elements) : Keeps s s' := by
  refine ⟨by rw [helements], fun i td td' hget hget' ↦ ?_⟩
  rw [helements] at hget'
  obtain rfl := Option.some.inj (hget.symm.trans hget')
  exact ⟨h.ok i td hget, rfl⟩

/-- Assumes: what is written to the element does not concern the locks. -/
theorem keeps_of_modify (hok : ∀ (i : ℕ) (td : Element), s.elements[i]? = some td → td.Ok)
    (helements : s'.elements = s.elements.modify i f)
    (hf : ∀ td, s.elements[i]? = some td → (f td).Ok ∧ (f td).failed = td.failed) : Keeps s s' := by
  refine ⟨by rw [helements, List.length_modify], fun j td td' hget hget' ↦ ?_⟩
  rw [helements] at hget'
  obtain ⟨before, hbefore, rfl⟩ := getElem?_modify_eq_some hget'
  obtain rfl := Option.some.inj (hget.symm.trans hbefore)
  split_ifs with heq
  · subst heq
    exact hf td hget
  · exact ⟨hok j td hget, rfl⟩

/-- The locks of the test mutex do not depend on what only `main` writes. -/
theorem Element.Ok.write (h : td.Ok) (id : Option ℕ) (next : Link) (freed : Bool) :
    Element.Ok { td with id := id, next := next, freed := freed } :=
  ⟨h.fresh, h.tried, h.locked, h.early, h.alive, h.created, h.join, h.child, h.grandchild⟩

theorem Inv.keeps_setCurNext (h : Inv k s) (link : Link) : Keeps s (s.setCurNext link) := by
  unfold State.setCurNext
  split
  · exact h.keeps_of_eq rfl
  · exact keeps_of_modify h.ok rfl fun td hget ↦ ⟨(h.ok _ td hget).write _ _ _, rfl⟩

/-- The child of the new element waits for `m`, so that nothing is overwritten. -/
theorem Inv.keeps_setError (h : Inv k s) (hmain : s.main = .setError)
    (helements : s'.elements = s.elements.modify s.last fun tmp ↦ { tmp with error := some 0 }) :
    Keeps s s' := by
  refine keeps_of_modify h.ok helements fun td hget ↦ ?_
  have hok := h.ok _ td hget
  have hlock : td.child = .lock := by
    have hlast := (h.sync.filling (by rw [hmain]; rfl)).1
    rw [List.getLast?_eq_getElem?, State.points, List.length_map, List.getElem?_map] at hlast
    rw [State.last] at hget
    simpa [hget] using hlast
  have hmtx : td.mtx = none := by
    cases hmtx : td.mtx with
    | none => rfl
    | some level =>
      cases level with
      | child => exact absurd (hok.child hmtx) (by rw [hlock]; decide)
      | grandchild =>
        have hsub := hok.early (by rw [hlock]; rfl)
        exact absurd (hsub.symm.trans (hok.grandchild hmtx)) (by decide)
  have hsub := hok.early (by rw [hlock]; rfl)
  refine ⟨.of_unborn hsub (fun _ ↦ rfl) (fun _ ↦ rfl) (fun _ ↦ rfl) ?_ ?_ ?_, ?_⟩
  · show td.child.hosts = false
    rw [hlock]
    rfl
  · simp [hmtx]
  · simp [hmtx]
  · rw [hok.fresh (by rw [hlock]; rfl)]
    rfl

theorem Inv.keeps_broadcast (h : Inv k s) (helements : s'.elements = s.elements.map Element.wake) :
    Keeps s s' := by
  refine ⟨by rw [helements, List.length_map], fun i td td' hget hget' ↦ ?_⟩
  rw [helements, List.getElem?_map, hget] at hget'
  obtain rfl := Option.some.inj hget'
  refine ⟨(h.ok i td hget).wake, ?_⟩
  unfold Element.wake
  split_ifs <;> rfl

theorem Inv.main_keeps (h : Inv k s) (hnext : main s ret = some s') : Keeps s s' ∨
    ∃ next, s'.elements = s.elements ++ [newElement next] := by
  cases mainStep hnext with
  | create _ => exact .inr ⟨_, rfl⟩
  | link _ => exact .inl (h.keeps_setCurNext _)
  | setId _ | free _ =>
    exact .inl (keeps_of_modify h.ok rfl fun td hget ↦ ⟨(h.ok _ td hget).write _ _ _, rfl⟩)
  | setError hmain => exact .inl (h.keeps_setError hmain rfl)
  | broadcast _ => exact .inl (h.keeps_broadcast rfl)
  | _ => exact .inl (h.keeps_of_eq rfl)

theorem Inv.ok_main (h : Inv k s) (hnext : main s ret = some s') (i : ℕ) (td : Element)
    (hget : s'.elements[i]? = some td) : td.Ok := by
  obtain ⟨hlength, hkeeps⟩ | ⟨next, helements⟩ := h.main_keeps hnext
  · have hlt : i < s.elements.length := hlength ▸ (List.getElem?_eq_some_iff.mp hget).1
    exact (hkeeps i _ td (List.getElem?_eq_getElem hlt) hget).1
  · rw [helements] at hget
    obtain hget | ⟨-, rfl⟩ := getElem?_concat_eq_some hget
    · exact h.ok i td hget
    · exact newElement_ok next

/-- `main` compares the counter with the number of children. -/
theorem Inv.curId (h : Inv k s) (hmain : s.main.plain = true) : s.curId = some s.points.length := by
  obtain ⟨hlinked, -, hnumbered⟩ := MainPoint.of_plain hmain s.records.length
  have hlength : s.records.length = s.points.length := by simp [State.records]
  obtain ⟨-, hcur, -⟩ :=
    (MainPoint.at_iff (MainPoint.not_walking_of_plain hmain)).mp h.chain.at_main
  rw [hlinked] at hcur
  rw [← hlength]
  exact h.chain.curId hcur hnumbered.ge le_rfl

theorem Inv.main (h : Inv k s) (hnext : main s ret = some s') :
    s'.main = .unresolved ∨ ∃ k, Inv k s' := by
  obtain hended | hsync := h.sync.main (fun hmain ↦ h.curId (by rw [hmain]; rfl)) hnext
  · exact .inl hended
  obtain hended | ⟨k', ⟨hchain, htally⟩, -⟩ := h.list_main hnext
  · exact .inl hended
  · exact .inr ⟨k', hsync, h.ok_main hnext, hchain, htally⟩

theorem Inv.malloc {block : Option Link} (h : Inv k s) (hnext : malloc s block = some s') :
    Inv k s' := by
  have hsync := h.sync.malloc hnext
  obtain ⟨hmain, rfl⟩ := malloc_eq hnext
  have hplain : (block.elim MainPoint.stop MainPoint.create).plain = true := by
    cases block <;> rfl
  obtain ⟨hchain, htally⟩ : Chain k { s with main := block.elim .stop .create } ∧
      Tally k { s with main := block.elim .stop .create } :=
    h.plain (by rw [hmain]; rfl) hplain rfl rfl rfl rfl
  exact ⟨hsync, h.ok, hchain, htally⟩

theorem Inv.next {move : Move} (h : Inv k s) (hnext : next s move = some s') :
    s'.main = .unresolved ∨ ∃ k, Inv k s' := by
  obtain hended | hstep := step_of_next hnext
  · exact .inl hended
  cases hstep with
  | malloc hmalloc => exact .inr ⟨k, h.malloc hmalloc⟩
  | main hmain => exact h.main hmain
  | element hstep => exact .inr ⟨k, h.step hstep⟩

/-- The process has ended with `UNRESOLVED`, or the invariant holds. -/
def Sound (s : State) : Prop := s.main = .unresolved ∨ ∃ k, Inv k s

theorem sound_of_reachable {blocks : Link → Bool} (h : (program blocks).Reachable s) : Sound s := by
  refine h.invariant (fun s hs ↦ ?_) fun s move s' _ hinv hnext ↦ ?_
  · obtain rfl : s = start := hs
    exact .inr ⟨0, start_inv⟩
  · obtain ⟨-, hnext⟩ := Option.ite_none_right_eq_some.mp hnext
    obtain hended | ⟨k, hinv⟩ := hinv
    · simp [next, hended, MainPoint.over] at hnext
    · exact hinv.next hnext

end OpenPosix.Mutexes.Scale
