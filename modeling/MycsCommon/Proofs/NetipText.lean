import MycsCommon.Network.Netip
import MycsCommon.Library.Text

/-! The text of an address or of a prefix determines it. IPv6 texts leave out a run of
zero groups; how many is known from the groups that are left. -/

namespace MycsCommon.Network
open Library Text List

theorem textBytes_injective : Function.Injective textBytes := by
  intro text other same
  apply String.toByteArray_inj.mp
  have encoded : ∀ text : String, text.toByteArray = (textBytes text).toByteArray := by
    intro text
    rw [textBytes, ← List.utf8Encode.eq_1, ← String.toByteArray_ofList, String.ofList_toList]
  rw [encoded, encoded, same]

theorem eq_of_slices {size count} (some : 0 < size) {bits other : BitVec (size * count)}
    (same : ∀ index < count, bits.extractLsb' (size * (count - 1 - index)) size = other.extractLsb' (size * (count - 1 - index)) size) :
    bits = other := by
  apply BitVec.eq_of_getLsbD_eq
  intro place bound
  have slices : ∀ slice < count, bits.extractLsb' (size * slice) size = other.extractLsb' (size * slice) size := by
    intro slice below
    have equal := same (count - 1 - slice) (by omega)
    rwa [show count - 1 - (count - 1 - slice) = slice by omega] at equal
  have equal := congrArg (fun slice => slice.getLsbD (place % size)) (slices (place / size) (Nat.div_lt_of_lt_mul bound))
  have low : place % size < size := Nat.mod_lt _ some
  simpa [low, Nat.div_add_mod] using equal

theorem bigEndian_injective {count} {bits other : BitVec (8 * count)}
    (same : bigEndian count bits = bigEndian count other) : bits = other := by
  apply eq_of_slices (by decide)
  intro index bound
  have equal := map_inj_left.mp same index (mem_range.mpr bound)
  exact congrArg UInt8.toBitVec equal

namespace Addr

theorem groups_injective {bits other : BitVec 128} (same : groups bits = groups other) : bits = other := by
  apply @eq_of_slices 16 8 (by decide)
  intro index bound
  exact map_inj_left.mp same index (mem_range.mpr bound)

/-! Dotted text. -/

theorem text4_toList (bits : BitVec 32) :
    (text4 bits).toList = ['.'].intercalate ((bigEndian 4 bits).map fun byte => byte.toNat.repr.toList) := by
  simp only [text4, String.toList_intercalate, map_map]
  rfl

theorem mem_text4 {bits} {char} (member : char ∈ (text4 bits).toList) : char = '.' ∨ char.isDigit = true := by
  rw [text4_toList] at member
  rcases mem_intercalate member with dot | ⟨field, listed, holds⟩
  · exact .inl dot
  · obtain ⟨byte, -, rfl⟩ := mem_map.mp listed
    exact .inr (repr_isDigit holds)

theorem text4_injective {bits other} (same : (text4 bits).toList = (text4 other).toList) : bits = other := by
  rw [text4_toList, text4_toList] at same
  have free : ∀ bytes : Bytes, ∀ field ∈ bytes.map fun byte => byte.toNat.repr.toList, '.' ∉ field := by
    rintro bytes field listed holds
    obtain ⟨byte, -, rfl⟩ := mem_map.mp listed
    exact absurd (repr_isDigit holds) (by decide)
  have fields := intercalate_injective (free _) (free _) (by simp [bigEndian]) (by simp [bigEndian]) same
  apply @bigEndian_injective 4
  apply map_injective_iff.mpr _ fields
  intro byte otherByte equal
  exact UInt8.toNat_inj.mp (repr_injective equal)

theorem dot_mem_text4 (bits : BitVec 32) : '.' ∈ (text4 bits).toList := by
  rw [text4_toList]
  simp [bigEndian, range_succ]

/-! Text of the groups. -/

theorem mem_hexText {group} {char} (member : char ∈ (hexText group).toList) : ∃ digit < 16, char = digit.digitChar := by
  rw [hexText, String.toList_ofList] at member
  exact mem_toDigits (by decide) member

theorem hexText_ne_nil (group : BitVec 16) : (hexText group).toList ≠ [] := by
  rw [hexText, String.toList_ofList]
  exact Nat.toDigits_ne_nil

theorem hexText_injective : Function.Injective fun group : BitVec 16 => (hexText group).toList := by
  intro group other same
  simp only [hexText, String.toList_ofList] at same
  exact BitVec.eq_of_toNat_eq (toDigits_injective (by decide) (by decide) same)

/-- The groups on one side of the gap, as the texts between the colons. -/
def side (groups : List (BitVec 16)) : List (List Char) :=
  if groups = [] then [[]] else groups.map fun group => (hexText group).toList

theorem side_colonFree {groups field} (listed : field ∈ side groups) : ':' ∉ field := by
  have colon : ∀ digit < 16, ':' ≠ digit.digitChar := by decide
  unfold side at listed
  split at listed
  · simp [mem_singleton.mp listed]
  · obtain ⟨-, -, rfl⟩ := mem_map.mp listed
    intro member
    obtain ⟨digit, low, same⟩ := mem_hexText member
    exact colon digit low same

theorem side_ne_nil (groups : List (BitVec 16)) : side groups ≠ [] := by
  unfold side
  split
  · simp
  next some => simpa using some

theorem side_intercalate (groups : List (BitVec 16)) :
    (":".intercalate (groups.map hexText)).toList = [':'].intercalate (side groups) := by
  unfold side
  split
  next none => simp [none]
  next => simp only [String.toList_intercalate, map_map]; rfl

theorem side_nil : side [] = [[]] := rfl

theorem side_cons (group : BitVec 16) (groups : List (BitVec 16)) :
    side (group :: groups) = (group :: groups).map fun group => (hexText group).toList := rfl

private theorem side_injective {groups others} (same : side groups = side others) : groups = others := by
  cases groups with
  | nil =>
    cases others with
    | nil => rfl
    | cons group others => exact absurd (List.cons.inj same).1.symm (hexText_ne_nil group)
  | cons group groups =>
    cases others with
    | nil => exact absurd (List.cons.inj same).1 (hexText_ne_nil group)
    | cons other others => exact map_injective_iff.mpr hexText_injective same

theorem side_split {before otherBefore after otherAfter}
    (same : side before ++ [] :: side after = side otherBefore ++ [] :: side otherAfter) :
    before = otherBefore ∧ after = otherAfter := by
  have filled : ∀ groups : List (BitVec 16), ∀ field ∈ groups.map fun group => (hexText group).toList, ¬ field = [] := by
    intro groups field listed
    obtain ⟨group, -, rfl⟩ := mem_map.mp listed
    exact hexText_ne_nil group
  -- a text that starts with the gap has an empty first field
  cases before with
  | nil =>
    cases otherBefore with
    | nil => exact ⟨rfl, side_injective (List.cons.inj (List.cons.inj same).2).2⟩
    | cons group others => exact absurd (List.cons.inj same).1.symm (hexText_ne_nil group)
  | cons group groups =>
    cases otherBefore with
    | nil => exact absurd (List.cons.inj same).1 (hexText_ne_nil group)
    | cons other others =>
      rw [side_cons, side_cons] at same
      obtain ⟨fields, rest⟩ := split same (filled _) (filled _) (by simp) (by simp)
      exact ⟨map_injective_iff.mpr hexText_injective fields, side_injective (List.cons.inj rest).2⟩

/-- The groups the text leaves out are zero, and there are at least two of them. -/
structure Gap (parts : List (BitVec 16)) (start stop : Nat) : Prop where
  ordered : start < stop
  bounded : stop ≤ parts.length
  zeros : parts = parts.take start ++ (List.replicate (stop - start) 0 ++ parts.drop stop)

theorem gap_run {parts} {index} (some : 2 ≤ ((parts.drop index).takeWhile (· == 0)).length) :
    Gap parts index (index + ((parts.drop index).takeWhile (· == 0)).length) := by
  have whole : (parts.drop index).takeWhile (· == 0) ++ (parts.drop index).dropWhile (· == 0) = parts.drop index :=
    takeWhile_append_dropWhile
  have run : (parts.drop index).takeWhile (· == 0) =
      List.replicate ((parts.drop index).takeWhile (· == 0)).length 0 := by
    apply eq_replicate_of_mem
    intro group member
    simpa using all_eq_true.mp all_takeWhile group member
  generalize found : (parts.drop index).takeWhile (· == 0) = zeros at *
  have bound := congrArg List.length whole
  simp only [length_append, length_drop] at bound
  refine ⟨by omega, by omega, ?_⟩
  have rest : parts.drop (index + zeros.length) = (parts.drop index).dropWhile (· == 0) := by
    rw [← drop_drop]
    conv_lhs => rw [← whole]
    rw [drop_left]
  rw [Nat.add_sub_cancel_left, ← run, rest, whole, take_append_drop]

theorem zeroRun_cases (parts : List (BitVec 16)) :
    zeroRun parts = (255, 255) ∨ Gap parts (zeroRun parts).1 (zeroRun parts).2 := by
  unfold zeroRun
  generalize List.range 8 = indices
  induction indices using List.reverseRecOn with
  | nil => exact .inl rfl
  | append_singleton indices index ih =>
    rw [foldl_append]
    simp only [foldl_cons, foldl_nil]
    split
    next long => exact .inr (gap_run long.1)
    next => exact ih

def fields6 (bits : BitVec 128) : List (List Char) :=
  let parts := groups bits
  let (start, stop) := zeroRun parts
  if start = 255 then side parts else side (parts.take start) ++ [] :: side (parts.drop stop)

theorem text6_toList (bits : BitVec 128) : (text6 bits).toList = [':'].intercalate (fields6 bits) := by
  have joined : ∀ first second : List (List Char), first ≠ [] → second ≠ [] →
      [':'].intercalate (first ++ [] :: second) = [':'].intercalate first ++ [':', ':'] ++ [':'].intercalate second := by
    intro first second some otherSome
    have gap : [':'].intercalate ([[]] ++ second) = [':'].intercalate [[]] ++ [':'] ++ [':'].intercalate second :=
      intercalate_append (by simp) otherSome
    rw [intercalate_append some (by simp), show [] :: second = [[]] ++ second from rfl, gap]
    simp
  simp only [text6, fields6]
  split
  · exact side_intercalate _
  · rw [joined _ _ (side_ne_nil _) (side_ne_nil _), String.toList_append, String.toList_append, side_intercalate, side_intercalate]
    rfl

theorem fields6_colonFree {bits field} (listed : field ∈ fields6 bits) : ':' ∉ field := by
  simp only [fields6] at listed
  split at listed
  · exact side_colonFree listed
  · rcases mem_append.mp listed with before | later
    · exact side_colonFree before
    · rcases mem_cons.mp later with rfl | after
      · simp
      · exact side_colonFree after

theorem fields6_ne_nil (bits : BitVec 128) : fields6 bits ≠ [] := by
  simp only [fields6]
  split
  · exact side_ne_nil _
  · simp

theorem length_groups (bits : BitVec 128) : (groups bits).length = 8 := by simp [groups]

theorem Gap.eq {parts others} {start stop otherStart otherStop} (gap : Gap parts start stop)
    (otherGap : Gap others otherStart otherStop) (sizes : parts.length = others.length)
    (before : parts.take start = others.take otherStart) (after : parts.drop stop = others.drop otherStop) :
    parts = others := by
  have starts := congrArg List.length before
  have stops := congrArg List.length after
  have bounds := And.intro gap.ordered gap.bounded
  have otherBounds := And.intro otherGap.ordered otherGap.bounded
  simp only [length_take, length_drop] at starts stops
  have room : stop - start = otherStop - otherStart := by omega
  rw [gap.zeros, otherGap.zeros, before, after, room]

private theorem side_filled {groups} (some : groups ≠ []) : [] ∉ side groups := by
  obtain ⟨-, -, rfl⟩ := exists_cons_of_ne_nil some
  rw [side_cons]
  intro member
  obtain ⟨other, -, empty⟩ := mem_map.mp member
  exact hexText_ne_nil other empty

theorem fields6_injective {bits other} (same : fields6 bits = fields6 other) : bits = other := by
  have filled : ∀ bits, [] ∉ side (groups bits) := fun bits =>
    side_filled (ne_nil_of_length_pos (by rw [length_groups]; decide))
  apply groups_injective
  simp only [fields6] at same
  rcases zeroRun_cases (groups bits) with whole | gap
  · rcases zeroRun_cases (groups other) with otherWhole | otherGap
    · rw [whole, otherWhole] at same
      exact side_injective same
    · have bound := Nat.lt_of_lt_of_le otherGap.ordered otherGap.bounded
      rw [length_groups] at bound
      rw [whole, if_pos rfl, if_neg (by omega)] at same
      exact absurd (same ▸ mem_append_right _ (mem_cons_self ..)) (filled bits)
  · have bound := Nat.lt_of_lt_of_le gap.ordered gap.bounded
    rw [length_groups] at bound
    rw [if_neg (by omega)] at same
    rcases zeroRun_cases (groups other) with otherWhole | otherGap
    · rw [otherWhole, if_pos rfl] at same
      exact absurd (same ▸ mem_append_right _ (mem_cons_self ..)) (filled other)
    · have otherBound := Nat.lt_of_lt_of_le otherGap.ordered otherGap.bounded
      rw [length_groups] at otherBound
      rw [if_neg (by omega)] at same
      obtain ⟨before, after⟩ := side_split same
      exact gap.eq otherGap (by rw [length_groups, length_groups]) before after

theorem text6_injective {bits other} (same : (text6 bits).toList = (text6 other).toList) : bits = other := by
  rw [text6_toList, text6_toList] at same
  exact fields6_injective (intercalate_injective (fun _ => fields6_colonFree) (fun _ => fields6_colonFree)
    (fields6_ne_nil bits) (fields6_ne_nil other) same)

theorem mem_text6 {bits} {char} (member : char ∈ (text6 bits).toList) :
    char = ':' ∨ ∃ digit < 16, char = digit.digitChar := by
  have digits : ∀ groups : List (BitVec 16), ∀ field ∈ side groups, ∀ char ∈ field, ∃ digit < 16, char = digit.digitChar := by
    intro groups field listed char holds
    cases groups with
    | nil =>
      rw [side_nil, mem_singleton] at listed
      simp [listed] at holds
    | cons group groups =>
      obtain ⟨other, -, rfl⟩ := mem_map.mp listed
      exact mem_hexText holds
  rw [text6_toList] at member
  rcases mem_intercalate member with colon | ⟨field, listed, holds⟩
  · exact .inl colon
  · right
    simp only [fields6] at listed
    split at listed
    · exact digits _ field listed char holds
    · rcases mem_append.mp listed with before | later
      · exact digits _ field before char holds
      · rcases mem_cons.mp later with rfl | after
        · simp at holds
        · exact digits _ field after char holds

theorem colon_mem_text6 (bits : BitVec 128) : ':' ∈ (text6 bits).toList := by
  have several : 2 ≤ (fields6 bits).length := by
    simp only [fields6]
    split
    · unfold side
      split
      next none => simp [groups] at none
      next => rw [length_map, length_groups]; decide
    · have before := length_pos_iff.mpr (side_ne_nil ((groups bits).take (zeroRun (groups bits)).1))
      rw [length_append, length_cons]
      omega
  rw [text6_toList]
  match fields6 bits, several with
  | first :: second :: rest, _ =>
    rw [intercalate_cons_cons]
    simp

/-! Whole addresses. -/

theorem text_v6 {bits} {zone} (zoneless : (v6 bits zone).withoutZone = v6 bits zone) : (v6 bits zone).text.toList =
      if is4In6 bits then "::ffff:".toList ++ (text4 (bits.extractLsb' 0 32)).toList else (text6 bits).toList := by
  have none : zone = "" := (Addr.v6.inj zoneless).2.symm
  rw [text, if_pos none, String.toList_append]
  split <;> simp

theorem dot_notMem_text6 (bits : BitVec 128) : '.' ∉ (text6 bits).toList := by
  have dot : ∀ digit < 16, '.' ≠ digit.digitChar := by decide
  intro member
  rcases mem_text6 member with colon | ⟨digit, low, same⟩
  · exact absurd colon (by decide)
  · exact dot digit low same

theorem colon_mem_text {bits} {zone} (zoneless : (v6 bits zone).withoutZone = v6 bits zone) :
    ':' ∈ (v6 bits zone).text.toList := by
  rw [text_v6 zoneless]
  split
  · simp
  · exact colon_mem_text6 bits

theorem colon_notMem_text4 (bits : BitVec 32) : ':' ∉ (text4 bits).toList := by
  intro member
  rcases mem_text4 member with dot | digit
  · exact absurd dot (by decide)
  · exact absurd digit (by decide)

theorem eq_of_is4In6 {bits other} (mapped : is4In6 bits = true) (otherMapped : is4In6 other = true)
    (same : bits.extractLsb' 0 32 = other.extractLsb' 0 32) : bits = other := by
  have high : bits.extractLsb' 32 96 = other.extractLsb' 32 96 := by
    simp only [is4In6, beq_iff_eq] at mapped otherMapped
    rw [mapped, otherMapped]
  apply BitVec.eq_of_getLsbD_eq
  intro place bound
  by_cases low : place < 32
  · have equal := congrArg (fun slice => slice.getLsbD place) same
    simpa [low] using equal
  · have equal := congrArg (fun slice => slice.getLsbD (place - 32)) high
    simpa [show place - 32 < 96 by omega, show 32 + (place - 32) = place by omega] using equal

theorem text_v6_injective {bits other} {zone otherZone} (zoneless : (v6 bits zone).withoutZone = v6 bits zone)
    (otherZoneless : (v6 other otherZone).withoutZone = v6 other otherZone)
    (same : (v6 bits zone).text.toList = (v6 other otherZone).text.toList) : bits = other := by
  rw [text_v6 zoneless, text_v6 otherZoneless] at same
  split at same
  next mapped =>
    split at same
    next otherMapped => exact eq_of_is4In6 mapped otherMapped (text4_injective (append_cancel_left same))
    next => exact absurd (same ▸ mem_append_right _ (dot_mem_text4 _)) (dot_notMem_text6 other)
  next =>
    split at same
    next => exact absurd (same ▸ mem_append_right _ (dot_mem_text4 _)) (dot_notMem_text6 bits)
    next => exact text6_injective same

theorem text_injective {addr other : Addr} (zoneless : addr.withoutZone = addr) (otherZoneless : other.withoutZone = other)
    (valid : addr.isValid = true) (otherValid : other.isValid = true) (same : addr.text.toList = other.text.toList) :
    addr = other := by
  cases addr with
  | zero => simp [isValid] at valid
  | v4 bits =>
    cases other with
    | zero => simp [isValid] at otherValid
    | v4 otherBits => rw [text4_injective same]
    | v6 otherBits zone =>
      have colon := colon_mem_text otherZoneless
      rw [← same] at colon
      exact absurd colon (colon_notMem_text4 bits)
  | v6 bits zone =>
    cases other with
    | zero => simp [isValid] at otherValid
    | v4 otherBits =>
      have colon := colon_mem_text zoneless
      rw [same] at colon
      exact absurd colon (colon_notMem_text4 otherBits)
    | v6 otherBits otherZone =>
      rw [← zoneless, ← otherZoneless, withoutZone, withoutZone, text_v6_injective zoneless otherZoneless same]

theorem mem_text {addr : Addr} (zoneless : addr.withoutZone = addr) (valid : addr.isValid = true) {char}
    (member : char ∈ addr.text.toList) : char = '.' ∨ char = ':' ∨ ∃ digit < 16, char = digit.digitChar := by
  have dotted : ∀ {bits : BitVec 32}, char ∈ (text4 bits).toList →
      char = '.' ∨ char = ':' ∨ ∃ digit < 16, char = digit.digitChar := by
    intro bits member
    rw [text4_toList] at member
    rcases mem_intercalate member with dot | ⟨field, listed, holds⟩
    · exact .inl dot
    · obtain ⟨byte, -, rfl⟩ := mem_map.mp listed
      rw [Nat.toList_repr] at holds
      obtain ⟨digit, low, same⟩ := mem_toDigits (by decide) holds
      exact .inr (.inr ⟨digit, by omega, same⟩)
  cases addr with
  | zero => simp [isValid] at valid
  | v4 bits => exact dotted member
  | v6 bits zone =>
    rw [text_v6 zoneless] at member
    split at member
    · rcases mem_append.mp member with lead | rest
      · have leading : "::ffff:".toList.all (fun char => char == ':' || char == Nat.digitChar 15) = true := by decide
        have either := all_eq_true.mp leading char lead
        rw [Bool.or_eq_true, beq_iff_eq, beq_iff_eq] at either
        rcases either with colon | digit
        · exact .inr (.inl colon)
        · exact .inr (.inr ⟨15, by decide, digit⟩)
      · exact dotted rest
    · rcases mem_text6 member with colon | digit
      · exact .inr (.inl colon)
      · exact .inr (.inr digit)

end Addr

namespace Prefix

section

variable {network : Prefix} (valid : network.isValid = true)
include valid

theorem text_toList :
    network.text.toList = network.addr.text.toList ++ '/' :: (network.bitsPlusOne - 1).repr.toList := by
  rw [text, if_pos valid, String.toList_append, String.toList_append, append_assoc]
  rfl

theorem addr_isValid : network.addr.isValid = true := by
  have some := (network.fits (of_decide_eq_true valid)).1
  cases addr : network.addr with
  | zero => exact absurd addr some
  | v4 | v6 => rfl

theorem slash_notMem_addr : '/' ∉ network.addr.text.toList := by
  have digits : ∀ digit < 16, '/' ≠ digit.digitChar := by decide
  intro member
  rcases Addr.mem_text network.zoneless (addr_isValid valid) member with dot | colon | ⟨digit, low, same⟩
  · exact absurd dot (by decide)
  · exact absurd colon (by decide)
  · exact digits digit low same

theorem text_injective {other : Prefix} (otherValid : other.isValid = true)
    (same : network.text.toList = other.text.toList) : network = other := by
  rw [text_toList valid, text_toList otherValid] at same
  obtain ⟨addrs, rest⟩ := @split _ (· = '/') _ _ _ _ same (fun char member equal => slash_notMem_addr valid (equal ▸ member))
    (fun char member equal => slash_notMem_addr otherValid (equal ▸ member)) (by simp) (by simp)
  have addr := Addr.text_injective network.zoneless other.zoneless (addr_isValid valid) (addr_isValid otherValid) addrs
  have bits := repr_injective (List.cons.inj rest).2
  have positive := of_decide_eq_true valid
  have otherPositive := of_decide_eq_true otherValid
  cases network
  cases other
  simp only at addr bits positive otherPositive
  subst addr
  congr 1
  omega

end

end Prefix

end MycsCommon.Network
