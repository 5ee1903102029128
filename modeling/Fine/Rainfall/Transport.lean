import Fine.Rainfall.Reload

/-!
# Ranges follow their bytes

An edited source is laid out by where its bytes come from, and the stretch that a range covers is
followed. It is moved as a whole until an edit reaches into it; then its begin is settled while its
end moves, until an edit ends behind it or begins there.
-/

namespace Fine.Rainfall

open List

/-! ## Layout of an edited source -/

/-- Where a byte of an edited source comes from. -/
inductive Origin where
  /-- From a place of the old source. -/
  | kept (place : Nat)
  | inserted (edit : Edit) (index : Nat)
deriving DecidableEq

/-- The place in the old source, if it is from there. -/
def Origin.place : Origin → Option Nat
  | .kept place => some place
  | .inserted _ _ => none

def Origin.byte (source : Bytes) : Origin → Option UInt8
  | .kept place => source[place]?
  | .inserted edit index => edit.insert[index]?

def stretch (start stop : Nat) : List Origin := (List.range' start (stop - start)).map .kept

/-- The text of an edit. -/
def Edit.inserted (edit : Edit) : List Origin :=
  (List.range edit.insert.length).map (.inserted edit)

def layoutFrom (length : Nat) : Nat → List Edit → List Origin
  | cursor, [] => stretch cursor length
  | cursor, edit :: edits =>
    stretch cursor edit.start ++ (edit.inserted ++ layoutFrom length edit.stop edits)

def layout (length : Nat) (edits : List Edit) : List Origin := layoutFrom length 0 edits

@[simp] theorem length_stretch (start stop : Nat) : (stretch start stop).length = stop - start := by
  simp [stretch]

@[simp] theorem length_inserted (edit : Edit) : edit.inserted.length = edit.insert.length := by
  simp [Edit.inserted]

theorem mem_stretch {start stop : Nat} {origin : Origin} : origin ∈ stretch start stop ↔
    ∃ place, start ≤ place ∧ place < stop ∧ origin = .kept place := by
  simp only [stretch, mem_map, mem_range'_1]
  constructor
  · rintro ⟨place, bounds, rfl⟩
    exact ⟨place, bounds.1, by omega, rfl⟩
  · rintro ⟨place, after, before, rfl⟩
    exact ⟨place, ⟨after, by omega⟩, rfl⟩

theorem mem_inserted {edit : Edit} {origin : Origin} (member : origin ∈ edit.inserted) :
    ∃ index, origin = .inserted edit index := by
  obtain ⟨index, -, rfl⟩ := mem_map.mp member
  exact ⟨index, rfl⟩

theorem stretch_split {start middle stop : Nat} (front : start ≤ middle) (back : middle ≤ stop) :
    stretch start stop = stretch start middle ++ stretch middle stop := by
  have size : stop - start = (middle - start) + (stop - middle) := by omega
  have next : start + (middle - start) = middle := by omega
  simp only [stretch]
  rw [size, ← List.range'_append_1, next, map_append]

theorem stretch_byte (source : Bytes) {start stop : Nat} (inside : stop ≤ source.length) :
    (stretch start stop).map (Origin.byte source) = ((source.take stop).drop start).map some := by
  apply ext_getElem?
  intro index
  simp only [stretch, map_map, List.getElem?_map, List.getElem?_drop, List.getElem?_take]
  by_cases within : start + index < stop
  · have known : start + index < source.length := by omega
    rw [List.getElem?_range' (by omega), if_pos within]
    simp [Origin.byte, known]
  · rw [if_neg within, List.getElem?_eq_none (by simp; omega)]
    rfl

theorem inserted_byte (source : Bytes) (edit : Edit) :
    edit.inserted.map (Origin.byte source) = edit.insert.map some := by
  apply ext_getElem?
  intro index
  simp only [Edit.inserted, map_map, List.getElem?_map]
  by_cases within : index < edit.insert.length
  · simp [Origin.byte, within]
  · rw [List.getElem?_eq_none (by simpa using within),
      List.getElem?_eq_none (by simpa using within)]
    rfl

theorem layoutFrom_byte {source : Bytes} {cursor : Nat} {edits : List Edit}
    (fitting : Fitting source.length cursor edits) :
    (layoutFrom source.length cursor edits).map (Origin.byte source) =
      (applyFrom source cursor edits).map some := by
  induction edits generalizing cursor with
  | nil =>
    rw [layoutFrom, applyFrom, stretch_byte source (Nat.le_refl _), take_length]
  | cons edit edits ih =>
    obtain ⟨after, ordered, within, rest⟩ := fitting
    simp only [layoutFrom, applyFrom, map_append, inserted_byte, ih rest, append_assoc]
    rw [stretch_byte source (Nat.le_trans ordered within)]

/-- Places are in order, none before the first. -/
theorem layoutFrom_places {length cursor : Nat} {edits : List Edit}
    (fitting : Fitting length cursor edits) :
    ((layoutFrom length cursor edits).filterMap Origin.place).Pairwise (· < ·) ∧
      ∀ place ∈ (layoutFrom length cursor edits).filterMap Origin.place, cursor ≤ place := by
  have ofStretch : ∀ start stop, (stretch start stop).filterMap Origin.place =
      List.range' start (stop - start) := by
    intro start stop
    rw [stretch, filterMap_map]
    exact filterMap_some
  have ofEdit : ∀ edit : Edit, edit.inserted.filterMap Origin.place = [] := by
    intro edit
    rw [Edit.inserted, filterMap_map]
    exact filterMap_eq_nil_iff.mpr fun _ _ => rfl
  induction edits generalizing cursor with
  | nil =>
    rw [layoutFrom, ofStretch]
    exact ⟨pairwise_lt_range', fun place member => (mem_range'_1.mp member).1⟩
  | cons edit edits ih =>
    obtain ⟨after, ordered, within, rest⟩ := fitting
    obtain ⟨sorted, behind⟩ := ih rest
    simp only [layoutFrom, filterMap_append, ofStretch, ofEdit, nil_append]
    constructor
    · refine pairwise_append.mpr ⟨pairwise_lt_range', sorted, ?_⟩
      intro first front second back
      have bound := (mem_range'_1.mp front).2
      have beyond := behind second back
      omega
    · intro place member
      rcases mem_append.mp member with front | back
      · exact (mem_range'_1.mp front).1
      · have beyond := behind place back
        omega

/-! ## Stretches that follow a range -/

def Deleted (edits : List Edit) (place : Nat) : Prop :=
  ∃ edit ∈ edits, edit.start ≤ place ∧ place < edit.stop

theorem Fitting.start_le {length cursor : Nat} {edits : List Edit}
    (fitting : Fitting length cursor edits) : ∀ edit ∈ edits, cursor ≤ edit.start := by
  induction edits generalizing cursor with
  | nil => nofun
  | cons edit edits ih =>
    obtain ⟨after, ordered, within, rest⟩ := fitting
    refine forall_mem_cons.mpr ⟨after, ?_⟩
    intro other member
    have beyond := ih rest other member
    omega

theorem layoutFrom_kept {length cursor place : Nat} {edits : List Edit}
    (fitting : Fitting length cursor edits)
    (member : .kept place ∈ layoutFrom length cursor edits) : ¬ Deleted edits place := by
  induction edits generalizing cursor with
  | nil => nofun
  | cons edit edits ih =>
    have starts := fitting.start_le
    obtain ⟨after, ordered, within, rest⟩ := fitting
    rintro ⟨other, among, front, back⟩
    rw [layoutFrom, mem_append, mem_append] at member
    rcases member with early | inserted | late
    · obtain ⟨place', -, before, same⟩ := mem_stretch.mp early
      cases same
      rcases mem_cons.mp among with rfl | among
      · omega
      · have beyond := rest.start_le other among
        omega
    · obtain ⟨index, same⟩ := mem_inserted inserted
      cases same
    · rcases mem_cons.mp among with rfl | among
      · have beyond := (layoutFrom_places rest).2 place (mem_filterMap.mpr ⟨_, late, rfl⟩)
        omega
      · exact ih rest late ⟨other, among, front, back⟩

/-- From inside a range, or from an edit that meets it. -/
def Origin.Within (edits : List Edit) (start stop : Nat) : Origin → Prop
  | .kept place => start ≤ place ∧ place < stop
  | .inserted edit _ => edit ∈ edits ∧ edit.start ≤ stop ∧ start ≤ edit.stop

/-- All bytes that are not deleted, with bytes of edits that meet the range. -/
structure Follows (edits : List Edit) (start stop low high : Nat) (moved : List Origin) : Prop where
  /-- No byte that is left is missing. -/
  left : ∀ place, low ≤ place → place < high → ¬ Deleted edits place → .kept place ∈ moved
  within : ∀ origin ∈ moved, origin.Within edits start stop

namespace Follows

variable {edits : List Edit} {start stop low middle high : Nat} {first second moved : List Origin}

theorem append (front : Follows edits start stop low middle first)
    (back : Follows edits start stop middle high second) :
    Follows edits start stop low high (first ++ second) where
  left := by
    intro place after before survives
    by_cases early : place < middle
    · exact mem_append_left _ (front.left place after early survives)
    · exact mem_append_right _ (back.left place (by omega) before survives)
  within := forall_mem_append.mpr ⟨front.within, back.within⟩

theorem shrink (follows : Follows edits start stop low high moved) {low' high' : Nat}
    (from_ : low ≤ low') (upto : high' ≤ high) : Follows edits start stop low' high' moved where
  left := fun place after before => follows.left place (by omega) (by omega)
  within := follows.within

theorem ofStretch (front : start ≤ low) (back : high ≤ stop) :
    Follows edits start stop low high (stretch low high) where
  left := fun place after before _ => mem_stretch.mpr ⟨place, after, before, rfl⟩
  within := by
    intro origin member
    obtain ⟨place, after, before, rfl⟩ := mem_stretch.mp member
    exact ⟨by omega, by omega⟩

theorem ofEdit {edit : Edit} (member : edit ∈ edits) (front : edit.start ≤ stop)
    (back : start ≤ edit.stop) :
    Follows edits start stop edit.start edit.stop edit.inserted where
  left := fun place after before survives => absurd ⟨edit, member, after, before⟩ survives
  within := by
    intro origin inside
    obtain ⟨index, rfl⟩ := mem_inserted inside
    exact ⟨member, front, back⟩

end Follows

/-- The mapped range covers a stretch that follows the range. -/
def Carried (edits : List Edit) (start stop : Nat) (full : List Origin) (mapped : Int × Int) :
    Prop :=
  ∃ front moved back, full = front ++ (moved ++ back) ∧ (front.length : Int) = mapped.1 ∧
    (front.length + moved.length : Int) = mapped.2 ∧
    Follows edits start stop start stop moved

theorem length_layoutFrom {length cursor : Nat} {edits : List Edit}
    (fitting : Fitting length cursor edits) (inside : cursor ≤ length) :
    ((layoutFrom length cursor edits).length : Int) = length - cursor + totalDelta edits := by
  induction edits generalizing cursor with
  | nil =>
    simp only [layoutFrom, length_stretch, totalDelta, map_nil, sum_nil]
    omega
  | cons edit edits ih =>
    obtain ⟨after, ordered, within, rest⟩ := fitting
    have tail := ih rest within
    rw [totalDelta_cons]
    simp only [layoutFrom, length_append, length_stretch, length_inserted]
    omega

/-! ## Three phases of the walk -/

section Walk

variable {all edits : List Edit} {start stop length cursor : Nat} {accumulated : Int}
  (fitting : Fitting length cursor edits)

include fitting

theorem transportFrom_settled {mappedBegin mappedEnd : Int}
    (forward : mappedBegin ≤ mappedEnd) (settled : mappedEnd ≤ cursor + accumulated) :
    (mappedBegin < mappedEnd →
        transportFrom accumulated mappedBegin mappedEnd edits = (mappedBegin, mappedEnd)) ∧
      (mappedBegin = mappedEnd →
        (transportFrom accumulated mappedBegin mappedEnd edits).1 =
          (transportFrom accumulated mappedBegin mappedEnd edits).2) := by
  induction edits generalizing cursor accumulated mappedBegin mappedEnd with
  | nil => exact ⟨fun _ => rfl, fun same => same⟩
  | cons edit edits ih =>
    obtain ⟨after, ordered, within, rest⟩ := fitting
    have delta : edit.delta = edit.insert.length - (edit.stop - edit.start : Int) := rfl
    rw [transportFrom]
    by_cases before : (edit.stop : Int) + accumulated ≤ mappedBegin
    · rw [if_pos before]
      have moved := @ih edit.stop (accumulated + edit.delta) rest (mappedBegin + edit.delta)
        (mappedEnd + edit.delta) (by omega) (by omega)
      exact ⟨fun some => by omega, fun same => moved.2 (by omega)⟩
    · rw [if_neg before, if_pos (by omega)]
      exact ih rest forward (by omega)

/-- Behind a range nothing changes what it carries. -/
theorem carried_settled (inside : cursor ≤ length)
    {front moved back : List Origin}
    (size : ((front ++ (moved ++ back)).length : Int) = cursor + accumulated)
    (follows : Follows all start stop start stop moved) {mappedBegin mappedEnd : Int}
    (begins : mappedBegin = front.length) (ends : mappedEnd = front.length + moved.length) :
    Carried all start stop (front ++ (moved ++ back) ++ layoutFrom length cursor edits)
      (transportFrom accumulated mappedBegin mappedEnd edits) := by
  simp only [length_append] at size
  obtain ⟨stays, empty⟩ := transportFrom_settled fitting (show mappedBegin ≤ mappedEnd by omega)
    (show mappedEnd ≤ cursor + accumulated by omega)
  cases moved with
  | cons origin moved =>
    rw [stays (by rw [length_cons] at ends; omega)]
    exact ⟨front, origin :: moved, back ++ layoutFrom length cursor edits, by simp, begins.symm,
      ends.symm, follows⟩
  | nil =>
    have same := empty (by rw [length_nil] at ends; omega)
    have bounds := transportFrom_inside fitting (show 0 ≤ accumulated + cursor by omega)
      (show 0 ≤ mappedBegin by omega) (show mappedEnd ≤ length + accumulated by omega)
    have tail := length_layoutFrom fitting inside
    set mapped := transportFrom accumulated mappedBegin mappedEnd edits
    set full := front ++ ([] ++ back) ++ layoutFrom length cursor edits with full_eq
    have whole : (full.length : Int) = length + accumulated + totalDelta edits := by
      rw [full_eq]
      simp only [length_append, length_nil] at size ⊢
      omega
    have place : ((full.take mapped.1.toNat).length : Int) = mapped.1 := by
      rw [length_take]
      omega
    refine ⟨full.take mapped.1.toNat, [], full.drop mapped.1.toNat, ?_, place, ?_, follows⟩
    · rw [nil_append, take_append_drop]
    · rw [place, same]
      simp

/-- Behind a settled begin, the end is followed. -/
theorem carried_inside (known : ∀ edit ∈ edits, edit ∈ all)
    (begun : start ≤ cursor) (open_ : cursor ≤ stop) (inside : stop ≤ length)
    {front moved : List Origin} (size : (front.length + moved.length : Int) = cursor + accumulated)
    (follows : Follows all start stop start cursor moved) :
    Carried all start stop (front ++ moved ++ layoutFrom length cursor edits)
      (transportFrom accumulated front.length (stop + accumulated) edits) := by
  induction edits generalizing cursor accumulated front moved with
  | nil =>
    refine ⟨front, moved ++ stretch cursor stop, stretch stop length, ?_, rfl, ?_,
      follows.append (Follows.ofStretch begun (Nat.le_refl _))⟩
    · rw [layoutFrom, stretch_split open_ inside]
      simp
    · simp only [transportFrom, length_append, length_stretch]
      omega
  | cons edit edits ih =>
    obtain ⟨after, ordered, within, rest⟩ := fitting
    obtain ⟨here, later⟩ := forall_mem_cons.mp known
    have delta : edit.delta = edit.insert.length - (edit.stop - edit.start : Int) := rfl
    rw [transportFrom, layoutFrom]
    by_cases before : (edit.stop : Int) + accumulated ≤ front.length
    · -- An insertion right where the range begins, behind deleted bytes only.
      rw [if_pos before]
      have nothing : moved = [] := eq_nil_of_length_eq_zero (by omega)
      have point : edit.start = cursor ∧ edit.stop = cursor := by omega
      subst nothing
      rw [length_nil] at size
      have next := @ih edit.stop (accumulated + edit.delta) rest later (by omega) (by omega)
        (front ++ edit.inserted) [] (by
          simp only [length_append, length_inserted, length_nil]
          omega) (follows.shrink (Nat.le_refl _) (by omega))
      have begins : (front.length : Int) + edit.delta = ((front ++ edit.inserted).length : Nat) := by
        simp only [length_append, length_inserted]
        omega
      have ends : (stop : Int) + accumulated + edit.delta = stop + (accumulated + edit.delta) := by
        omega
      have hollow : stretch cursor edit.start = [] := by simp [stretch, point.1]
      rw [begins, ends, hollow]
      simpa using next
    · rw [if_neg before]
      by_cases behind : (stop : Int) + accumulated ≤ edit.start + accumulated
      · rw [if_pos behind]
        have split := stretch_split open_ (show stop ≤ edit.start by omega)
        have settled := @carried_settled all edits start stop length edit.stop
          (accumulated + edit.delta) rest within front (moved ++ stretch cursor stop)
          (stretch stop edit.start ++ edit.inserted) (by
            simp only [length_append, length_stretch, length_inserted]
            omega) (follows.append (Follows.ofStretch begun (Nat.le_refl _)))
          front.length (stop + accumulated) rfl (by
            simp only [length_append, length_stretch]
            omega)
        rw [split]
        simpa using settled
      · rw [if_neg behind]
        have same : (if (edit.start : Int) + accumulated ≤ front.length
            then (edit.start : Int) + accumulated else front.length) = front.length := by
          split <;> omega
        have meets := @Follows.ofEdit all start stop edit here (by omega) (by omega)
        have further := (follows.append (Follows.ofStretch begun (by omega))).append meets
        rw [same]
        by_cases covers : (stop : Int) + accumulated ≤ edit.stop + accumulated
        · rw [if_pos covers]
          have settled := @carried_settled all edits start stop length edit.stop
            (accumulated + edit.delta) rest within front
            (moved ++ stretch cursor edit.start ++ edit.inserted) [] (by
              simp only [length_append, length_stretch, length_inserted, length_nil]
              omega) (further.shrink (Nat.le_refl _) (by omega))
            front.length (edit.start + accumulated + edit.insert.length) rfl (by
              simp only [length_append, length_stretch, length_inserted]
              omega)
          simpa using settled
        · rw [if_neg covers]
          have next := @ih edit.stop (accumulated + edit.delta) rest later (by omega) (by omega)
            front (moved ++ stretch cursor edit.start ++ edit.inserted) (by
              simp only [length_append, length_stretch, length_inserted]
              omega) further
          have moves : (stop : Int) + accumulated + edit.delta =
              stop + (accumulated + edit.delta) := by omega
          rw [moves]
          simpa using next

/-- Before the range is reached it is moved as a whole. -/
theorem carried_before (known : ∀ edit ∈ edits, edit ∈ all)
    (ahead : cursor ≤ start) (forward : start < stop) (inside : stop ≤ length)
    {front : List Origin} (size : (front.length : Int) = cursor + accumulated) :
    Carried all start stop (front ++ layoutFrom length cursor edits)
      (transportFrom accumulated (start + accumulated) (stop + accumulated) edits) := by
  have range := @Follows.ofStretch all start stop start stop (Nat.le_refl _) (Nat.le_refl _)
  induction edits generalizing cursor accumulated front with
  | nil =>
    refine ⟨front ++ stretch cursor start, stretch start stop, stretch stop length, ?_, ?_, ?_,
      range⟩
    · rw [layoutFrom, stretch_split ahead (by omega), stretch_split (Nat.le_of_lt forward) inside]
      simp
    · simp only [transportFrom, length_append, length_stretch]
      omega
    · simp only [transportFrom, length_append, length_stretch]
      omega
  | cons edit edits ih =>
    obtain ⟨after, ordered, within, rest⟩ := fitting
    obtain ⟨here, later⟩ := forall_mem_cons.mp known
    have delta : edit.delta = edit.insert.length - (edit.stop - edit.start : Int) := rfl
    have moves : ∀ place : Nat, (place : Int) + accumulated + edit.delta =
        place + (accumulated + edit.delta) := by
      intro place
      omega
    rw [transportFrom, layoutFrom, moves, moves]
    by_cases before : (edit.stop : Int) + accumulated ≤ start + accumulated
    · rw [if_pos before]
      have next := @ih edit.stop (accumulated + edit.delta) rest later (by omega)
        (front ++ stretch cursor edit.start ++ edit.inserted) (by
          simp only [length_append, length_stretch, length_inserted]
          omega)
      simpa using next
    · rw [if_neg before]
      by_cases behind : (stop : Int) + accumulated ≤ edit.start + accumulated
      · rw [if_pos behind]
        have split := stretch_split ahead (show start ≤ edit.start by omega)
        have split' := stretch_split (Nat.le_of_lt forward) (show stop ≤ edit.start by omega)
        have settled := @carried_settled all edits start stop length edit.stop
          (accumulated + edit.delta) rest within (front ++ stretch cursor start)
          (stretch start stop) (stretch stop edit.start ++ edit.inserted) (by
            simp only [length_append, length_stretch, length_inserted]
            omega) range (start + accumulated) (stop + accumulated) (by
            simp only [length_append, length_stretch]
            omega) (by
            simp only [length_append, length_stretch]
            omega)
        rw [split, split']
        simpa using settled
      · rw [if_neg behind]
        -- The edit meets the range: its begin is settled before the text of the edit, or before
        -- what the edit leaves of the range.
        have meets := @Follows.ofEdit all start stop edit here (by omega) (by omega)
        obtain ⟨head, moved, shape, place, follows⟩ : ∃ head moved,
            stretch cursor edit.start = head ++ moved ∧
              (if (edit.start : Int) + accumulated ≤ start + accumulated
                then (edit.start : Int) + accumulated else start + accumulated) =
                ((front ++ head).length : Nat) ∧
              Follows all start stop start edit.stop (moved ++ edit.inserted) := by
          by_cases reaches : edit.start ≤ start
          · refine ⟨stretch cursor edit.start, [], by simp, ?_, ?_⟩
            · rw [if_pos (by omega)]
              simp only [length_append, length_stretch]
              omega
            · exact meets.shrink reaches (Nat.le_refl _)
          · refine ⟨stretch cursor start, stretch start edit.start,
              stretch_split ahead (by omega), ?_, ?_⟩
            · rw [if_neg (by omega)]
              simp only [length_append, length_stretch]
              omega
            · exact (Follows.ofStretch (Nat.le_refl _) (by omega)).append meets
        have length_eq := congrArg List.length shape
        simp only [length_append, length_stretch] at length_eq
        rw [place, shape]
        by_cases covers : (stop : Int) + accumulated ≤ edit.stop + accumulated
        · rw [if_pos covers]
          have settled := @carried_settled all edits start stop length edit.stop
            (accumulated + edit.delta) rest within (front ++ head) (moved ++ edit.inserted) [] (by
              simp only [length_append, length_inserted, length_nil]
              omega) (follows.shrink (Nat.le_refl _) (by omega)) _
            (edit.start + accumulated + edit.insert.length) rfl (by
              simp only [length_append, length_inserted]
              omega)
          simpa using settled
        · rw [if_neg covers]
          have next := @carried_inside all edits start stop length edit.stop
            (accumulated + edit.delta) rest later (by omega) (by omega) inside (front ++ head)
            (moved ++ edit.inserted) (by
              simp only [length_append, length_inserted]
              omega) follows
          simpa using next

end Walk

/-! ## Whole transactions -/

/-- What a transported range should be: unplaced when all its bytes are deleted, and otherwise a
range of the edited source with the bytes that are left, in order, and bytes inserted by edits that
meet the old range, and no others. -/
def Tracks (source : Bytes) (edits : List Edit) (start stop : Nat) : Option (Int × Int) → Prop
  | none => ∀ place, start ≤ place → place < stop → Deleted edits place
  | some mapped => 0 ≤ mapped.1 ∧ mapped.1 < mapped.2 ∧
      mapped.2 ≤ (applyEdits source edits).length ∧
      ∃ front moved back, layout source.length edits = front ++ (moved ++ back) ∧
        (front.length : Int) = mapped.1 ∧ (front.length + moved.length : Int) = mapped.2 ∧
        (∀ place, start ≤ place → place < stop → ¬ Deleted edits place →
          Origin.kept place ∈ moved) ∧
        (moved.filterMap Origin.place).Pairwise (· < ·) ∧
        ∀ origin ∈ moved, match origin with
          | .kept place => start ≤ place ∧ place < stop ∧ ¬ Deleted edits place
          | .inserted edit _ => edit ∈ edits ∧ edit.start ≤ stop ∧ start ≤ edit.stop

/-- Ranges follow their bytes: for every source, transaction and range, the edited source has the
bytes of the layout, and the transported range tracks the old one there. -/
theorem transportRange_tracks {value : Json} {source : Bytes} {edits : List Edit}
    (loaded : loadEdits value source.length = .ok edits) {start stop : Nat} (forward : start < stop)
    (inside : stop ≤ source.length) :
    (applyEdits source edits).map some = (layout source.length edits).map (Origin.byte source) ∧
      Tracks source edits start stop (transportRange start stop edits) := by
  have fitting := loadEdits_fitting loaded
  have bytes := layoutFrom_byte fitting
  have size : (applyEdits source edits).length = (layout source.length edits).length := by
    have lengths := congrArg List.length bytes
    rw [length_map, length_map] at lengths
    exact lengths.symm
  obtain ⟨front, moved, back, shape, begins, ends, follows⟩ :=
    @carried_before edits edits start stop source.length 0 0 fitting (fun _ member => member)
      (Nat.zero_le _) forward inside [] rfl
  rw [nil_append] at shape
  simp only [Int.add_zero] at begins ends
  refine ⟨bytes.symm, ?_⟩
  rw [transportRange]
  by_cases empty : (transportFrom 0 start stop edits).2 ≤ (transportFrom 0 start stop edits).1
  · rw [if_pos empty]
    intro place after before
    have nothing : moved = [] := eq_nil_of_length_eq_zero (by omega)
    by_contra survives
    have there := follows.left place after before survives
    rw [nothing] at there
    cases there
  · rw [if_neg empty]
    have sorted := (layoutFrom_places fitting).1
    have whole : (layout source.length edits).length = _ := congrArg List.length shape
    simp only [length_append] at whole
    refine ⟨by omega, by omega, by omega, front, moved, back, shape, begins, ends, follows.left,
      ?_, ?_⟩
    · rw [shape, filterMap_append, filterMap_append] at sorted
      exact (pairwise_append.mp (pairwise_append.mp sorted).2.1).1
    · intro origin member
      have bounds := follows.within origin member
      cases origin with
      | inserted => exact bounds
      | kept place =>
        refine ⟨bounds.1, bounds.2, layoutFrom_kept fitting ?_⟩
        rw [shape]
        exact mem_append_right _ (mem_append_left _ member)

/-- Replaces the begin of a range and deletes its end. -/
def overlapTransaction : Json :=
  .array [.object [("from", .int 3), ("to", .int 7), ("insert", .text "ab")],
    .object [("from", .int 8), ("to", .int 10), ("insert", .text "")]]

/-- Only the byte at 7 is left, behind the text that replaces the first two. -/
theorem overlapTransaction_tracks : ∃ edits,
    loadEdits overlapTransaction 12 = .ok edits ∧ transportRange 5 10 edits = some (3, 6) ∧
      Tracks (List.replicate 12 0) edits 5 10 (some (3, 6)) := by
  refine ⟨[⟨3, 7, Utf8.encode "ab", "ab"⟩, ⟨8, 10, Utf8.encode "", ""⟩], by rfl,
    by decide +kernel, ?_⟩
  exact (@transportRange_tracks overlapTransaction (List.replicate 12 0) _ (by rfl) 5 10 (by decide)
    (by decide)).2

end Fine.Rainfall
