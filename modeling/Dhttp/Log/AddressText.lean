import Dhttp.Lib.ByteText
import Dhttp.Lib.TextSplitting

namespace Dhttp.Log
open Dhttp.Lib
set_option autoImplicit true

abbrev Text := List Char

/-- Display of unsigned integers. -/
def decimal (n : Nat) : Text := Nat.toDigits 10 n

/-- The format `{:x}`. -/
def lowerHex (n : Nat) : Text := Nat.toDigits 16 n

structure Ipv4Addr where
  a : UInt8
  b : UInt8
  c : UInt8
  d : UInt8
  deriving DecidableEq, Repr

def Ipv4Addr.display (ip : Ipv4Addr) : Text :=
  decimal ip.a.toNat ++ '.' :: (decimal ip.b.toNat ++ '.' ::
    (decimal ip.c.toNat ++ '.' :: decimal ip.d.toNat))

structure Ipv6Addr where
  segments : List UInt16
  length_eq : segments.length = 8
  deriving DecidableEq, Repr

def Ipv6Addr.toIpv4Mapped (ip : Ipv6Addr) : Option Ipv4Addr :=
  match ip.segments with
  | [0, 0, 0, 0, 0, 0xFFFF, g, h] =>
    some ⟨(g >>> 8).toUInt8, g.toUInt8, (h >>> 8).toUInt8, h.toUInt8⟩
  | _ => none

structure Span where
  start : Nat
  len : Nat

/-- The first of the longest runs of zero segments: the loop from index `i` on. -/
def longestZeroes : List UInt16 → Nat → Span → Span → Span
  | [], _, longest, _ => longest
  | segment :: rest, i, longest, current =>
    if segment = 0 then
      let start := if current.len = 0 then i else current.start
      let current := ⟨start, current.len + 1⟩
      longestZeroes rest (i + 1) (if current.len > longest.len then current else longest) current
    else longestZeroes rest (i + 1) longest ⟨0, 0⟩

def fmtSubslice : List UInt16 → Text
  | [] => []
  | first :: tail =>
    lowerHex first.toNat ++ tail.flatMap fun segment => ':' :: lowerHex segment.toNat

def Ipv6Addr.display (ip : Ipv6Addr) : Text :=
  match ip.toIpv4Mapped with
  | some ipv4 => "::ffff:".toList ++ ipv4.display
  | none =>
    let zeroes := longestZeroes ip.segments 0 ⟨0, 0⟩ ⟨0, 0⟩
    if zeroes.len > 1 then
      fmtSubslice (ip.segments.take zeroes.start) ++ "::".toList ++
        fmtSubslice (ip.segments.drop (zeroes.start + zeroes.len))
    else fmtSubslice ip.segments

/-- The octet whose decimal text this is. -/
def octetOf (piece : Text) : Option UInt8 :=
  let n := numeralValue 10 piece
  if n < 256 ∧ decimal n = piece then some (UInt8.ofNat n) else none

def ipv4OfText (s : Text) : Option Ipv4Addr :=
  match splitAll '.' s with
  | [a, b, c, d] => do
    let a ← octetOf a
    let b ← octetOf b
    let c ← octetOf c
    let d ← octetOf d
    return ⟨a, b, c, d⟩
  | _ => none

/-- A segment of two octets. -/
def ofOctets (high low : UInt8) : UInt16 := UInt16.ofNat (256 * high.toNat + low.toNat)

def Ipv4Addr.toIpv6Mapped (ip : Ipv4Addr) : Ipv6Addr :=
  ⟨[0, 0, 0, 0, 0, 0xFFFF, ofOctets ip.a ip.b, ofOctets ip.c ip.d], rfl⟩

def segmentOf (piece : Text) : UInt16 := UInt16.ofNat (numeralValue 16 piece)

/-- The groups up to an empty one and those after it, with zeroes between them. -/
def expandGroups (groups : List Text) : List UInt16 :=
  let left := groups.takeWhile fun g => !g.isEmpty
  let right := (groups.dropWhile fun g => !g.isEmpty).dropWhile List.isEmpty
  left.map segmentOf ++ List.replicate (8 - left.length - right.length) 0 ++ right.map segmentOf

def ipv6OfText (s : Text) : Option Ipv6Addr :=
  if '.' ∈ s then do
    let s ← stripPrefix "::ffff:".toList s
    let ipv4 ← ipv4OfText s
    return ipv4.toIpv6Mapped
  else
    let segments := expandGroups (splitAll ':' s)
    if h : segments.length = 8 then some ⟨segments, h⟩ else none

section Ipv4

theorem not_mem_decimal {c : Char} (h : c.isDigit = false) : c ∉ decimal n := by
  intro hm
  rw [Nat.isDigit_of_mem_toDigits (by decide) (by decide) hm] at h
  cases h

theorem octetOf_iff : octetOf piece = some octet ↔ piece = decimal octet.toNat := by
  rw [octetOf]
  constructor
  · intro h
    obtain ⟨⟨hlt, hd⟩, he⟩ := Option.ite_none_right_eq_some.1 h
    rw [← Option.some.inj he, UInt8.toNat_ofNat', Nat.mod_eq_of_lt hlt]
    exact hd.symm
  · rintro rfl
    rw [decimal, numeralValue_toDigits (by decide) (by decide), UInt8.ofNat_toNat]
    exact if_pos ⟨octet.toNat_lt, rfl⟩

theorem splitAll_ipv4 (ip : Ipv4Addr) : splitAll '.' ip.display =
    [decimal ip.a.toNat, decimal ip.b.toNat, decimal ip.c.toNat, decimal ip.d.toNat] := by
  rw [Ipv4Addr.display, splitAll_append (not_mem_decimal rfl),
    splitAll_append (not_mem_decimal rfl), splitAll_append (not_mem_decimal rfl),
    splitAll_of_not_mem (not_mem_decimal rfl)]

/-- The texts of IPv4 addresses are read back, and no others. -/
theorem ipv4OfText_iff : ipv4OfText s = some ip ↔ s = ip.display := by
  constructor
  · intro h
    rw [ipv4OfText] at h
    split at h
    · rename_i a b c d hs
      obtain ⟨a', ha, h⟩ := Option.bind_eq_some_iff.1 h
      obtain ⟨b', hb, h⟩ := Option.bind_eq_some_iff.1 h
      obtain ⟨c', hc, h⟩ := Option.bind_eq_some_iff.1 h
      obtain ⟨d', hd, h⟩ := Option.bind_eq_some_iff.1 h
      cases h
      rw [joined_splitAll hs, octetOf_iff.1 ha, octetOf_iff.1 hb, octetOf_iff.1 hc,
        octetOf_iff.1 hd, Ipv4Addr.display]
      simp only [List.flatMap_cons, List.flatMap_nil, List.cons_append, List.append_nil]
    · cases h
  · rintro rfl
    rw [ipv4OfText, splitAll_ipv4]
    simp only [octetOf_iff.2 rfl]
    rfl

theorem dot_mem_ipv4 (ip : Ipv4Addr) : '.' ∈ ip.display := by
  rw [Ipv4Addr.display]
  exact List.mem_append_right _ List.mem_cons_self

theorem colon_not_mem_ipv4 (ip : Ipv4Addr) : ':' ∉ ip.display := by
  have hdecimal (n : Nat) : ':' ∉ decimal n := not_mem_decimal rfl
  simp only [Ipv4Addr.display, List.mem_append, List.mem_cons, hdecimal, or_false,
    Char.reduceEq, not_false_iff]

end Ipv4

section Ipv6

theorem ofOctets_segment (segment : UInt16) :
    ofOctets (segment >>> 8).toUInt8 segment.toUInt8 = segment := by
  have hlt := segment.toNat_lt
  rw [← UInt16.toNat_inj, ofOctets, UInt16.toNat_ofNat', UInt16.toNat_toUInt8,
    UInt16.toNat_toUInt8, UInt16.toNat_shiftRight]
  simp only [UInt16.reduceToNat, Nat.reduceMod, Nat.shiftRight_eq_div_pow]
  omega

theorem toIpv4Mapped_some {ip : Ipv6Addr} (h : ip.toIpv4Mapped = some ipv4) :
    ipv4.toIpv6Mapped = ip := by
  rw [Ipv6Addr.toIpv4Mapped] at h
  split at h
  · rename_i g k hs
    cases h
    simp only [Ipv4Addr.toIpv6Mapped, ofOctets_segment, ← hs]
  · cases h

/-- `z` spans zeroes of `segments`. -/
def SpansZeroes (segments : List UInt16) (z : Span) : Prop :=
  ∃ before after, segments = before ++ (List.replicate z.len 0 ++ after) ∧ before.length = z.start

theorem SpansZeroes.append (h : SpansZeroes segments z) (more : List UInt16) :
    SpansZeroes (segments ++ more) z := by
  obtain ⟨before, after, rfl, hl⟩ := h
  refine ⟨before, after ++ more, ?_, hl⟩
  rw [List.append_assoc, List.append_assoc]

/-- The loop keeps a run of zeroes among the segments it has seen and the run it is in. -/
theorem longestZeroes_spans {seen rest : List UInt16} {longest current : Span}
    (hl : SpansZeroes seen longest) (hc : ∃ before, seen = before ++ List.replicate current.len 0 ∧
      (current.len ≠ 0 → before.length = current.start)) :
    SpansZeroes (seen ++ rest) (longestZeroes rest seen.length longest current) := by
  induction rest generalizing seen longest current with
  | nil => exact hl.append []
  | cons segment rest ih =>
    obtain ⟨before, hseen, hstart⟩ := hc
    have hassoc : seen ++ segment :: rest = (seen ++ [segment]) ++ rest := by
      rw [List.append_assoc, List.singleton_append]
    have hlen : (seen ++ [segment]).length = seen.length + 1 := by
      rw [List.length_append, List.length_singleton]
    rw [longestZeroes, hassoc, ← hlen]
    split
    · rename_i hz
      have hgrown : seen ++ [segment] = before ++ List.replicate (current.len + 1) 0 := by
        rw [hz, hseen, List.append_assoc, List.replicate_succ']
      have hbefore : before.length = if current.len = 0 then seen.length else current.start := by
        split
        · rename_i h0
          rw [hseen, h0, List.replicate_zero, List.append_nil]
        · rename_i h0
          exact hstart h0
      generalize (if current.len = 0 then seen.length else current.start) = start at hbefore ⊢
      apply ih
      · split
        · refine ⟨before, [], ?_, hbefore⟩
          rw [List.append_nil]
          exact hgrown
        · exact hl.append _
      · exact ⟨before, hgrown, fun _ => hbefore⟩
    · apply ih
      · exact hl.append _
      · exact ⟨seen ++ [segment], (List.append_nil _).symm, fun h => absurd rfl h⟩

theorem SpansZeroes.eq (h : SpansZeroes segments z) :
    segments.take z.start ++ (List.replicate z.len 0 ++ segments.drop (z.start + z.len)) =
      segments := by
  obtain ⟨before, after, rfl, hl⟩ := h
  have hd : (before ++ (List.replicate z.len 0 ++ after)).drop (z.start + z.len) = after := by
    rw [← List.append_assoc]
    apply List.drop_left'
    rw [List.length_append, List.length_replicate, hl]
  rw [List.take_left' hl, hd]

theorem isNumeralChar_of_lowerHex (h : c ∈ lowerHex n) : isNumeralChar c = true :=
  List.all_eq_true.1 (toDigits_numeral (by decide) (by decide) n) c h

theorem not_mem_lowerHex {c : Char} (h : isNumeralChar c = false) : c ∉ lowerHex n := by
  intro hm
  rw [isNumeralChar_of_lowerHex hm] at h
  cases h

theorem segmentOf_lowerHex (segment : UInt16) : segmentOf (lowerHex segment.toNat) = segment := by
  rw [segmentOf, lowerHex, numeralValue_toDigits (by decide) (by decide), UInt16.ofNat_toNat]

def hexGroups (chunk : List UInt16) : List Text :=
  chunk.map fun segment => lowerHex segment.toNat

theorem hexGroups_nonempty (chunk : List UInt16) :
    ∀ group ∈ hexGroups chunk, (!group.isEmpty) = true := by
  intro group hg
  obtain ⟨segment, -, rfl⟩ := List.mem_map.1 hg
  rw [Bool.not_eq_true', List.isEmpty_eq_false_iff]
  exact Nat.toDigits_ne_nil

theorem map_segmentOf (chunk : List UInt16) : (hexGroups chunk).map segmentOf = chunk := by
  rw [hexGroups, List.map_map]
  conv_rhs => rw [← List.map_id chunk]
  exact List.map_congr_left fun segment _ => segmentOf_lowerHex segment

/-- An empty part has one empty group. -/
theorem splitAll_fmtSubslice (chunk : List UInt16) : splitAll ':' (fmtSubslice chunk) =
    if chunk = [] then [[]] else hexGroups chunk := by
  cases chunk with
  | nil => rfl
  | cons first tail =>
    have h := @splitAll_joined _ _ ':' (lowerHex first.toNat) (hexGroups tail)
      (not_mem_lowerHex rfl) (by
        intro piece hp
        obtain ⟨segment, -, rfl⟩ := List.mem_map.1 hp
        exact not_mem_lowerHex rfl)
    rw [hexGroups, List.flatMap_map] at h
    rw [if_neg (List.cons_ne_nil _ _)]
    exact h

theorem dropWhile_isEmpty_groups (chunk : List UInt16) :
    (splitAll ':' (fmtSubslice chunk)).dropWhile List.isEmpty = hexGroups chunk := by
  rw [splitAll_fmtSubslice]
  cases chunk with
  | nil => rfl
  | cons first tail =>
    have hne := hexGroups_nonempty (first :: tail) _ List.mem_cons_self
    rw [if_neg (List.cons_ne_nil _ _)]
    apply List.dropWhile_cons_of_neg
    rw [Bool.not_eq_true'] at hne
    rw [hne]
    exact Bool.false_ne_true

/-- An address with a run of zeroes left out. -/
theorem expandGroups_compressed {left right : List UInt16} {n : Nat}
    (hn : left.length + n + right.length = 8) :
    expandGroups (splitAll ':' (fmtSubslice left ++ "::".toList ++ fmtSubslice right)) =
      left ++ List.replicate n 0 ++ right := by
  have hs : splitAll ':' (fmtSubslice left ++ "::".toList ++ fmtSubslice right) =
      splitAll ':' (fmtSubslice left) ++ [] :: splitAll ':' (fmtSubslice right) := by
    rw [List.append_assoc]
    change splitAll ':' (fmtSubslice left ++ ':' :: ([] ++ ':' :: fmtSubslice right)) = _
    rw [splitAll_append_sep, splitAll_append_sep]
    rfl
  have hsplit : ∃ rest, rest.dropWhile List.isEmpty = hexGroups right ∧
      (splitAll ':' (fmtSubslice left) ++ [] :: splitAll ':' (fmtSubslice right)) =
        hexGroups left ++ [] :: rest := by
    rw [splitAll_fmtSubslice left]
    split
    · rename_i hl
      rw [hl]
      exact ⟨[] :: splitAll ':' (fmtSubslice right), dropWhile_isEmpty_groups right, rfl⟩
    · exact ⟨_, dropWhile_isEmpty_groups right, rfl⟩
  obtain ⟨rest, hrest, hsplit⟩ := hsplit
  have htake : (hexGroups left ++ [] :: rest).takeWhile (fun g => !g.isEmpty) =
      hexGroups left := by
    rw [List.takeWhile_append_of_pos (hexGroups_nonempty left)]
    exact List.append_nil _
  have hdrop : ((hexGroups left ++ [] :: rest).dropWhile fun g => !g.isEmpty).dropWhile
      List.isEmpty = hexGroups right := by
    rw [List.dropWhile_append_of_pos (hexGroups_nonempty left)]
    exact hrest
  have hzeroes : 8 - (hexGroups left).length - (hexGroups right).length = n := by
    rw [hexGroups, hexGroups, List.length_map, List.length_map]
    omega
  rw [expandGroups, hs, hsplit]
  simp only [htake, hdrop, hzeroes, map_segmentOf]

theorem expandGroups_full {segments : List UInt16} (hl : segments.length = 8) :
    expandGroups (splitAll ':' (fmtSubslice segments)) = segments := by
  have hne : segments ≠ [] := List.ne_nil_of_length_pos (by omega)
  have htake : (hexGroups segments).takeWhile (fun g => !g.isEmpty) = hexGroups segments :=
    List.takeWhile_eq_self_iff.2 (hexGroups_nonempty segments)
  have hdrop : (hexGroups segments).dropWhile (fun g => !g.isEmpty) = [] :=
    List.dropWhile_eq_nil_iff.2 (hexGroups_nonempty segments)
  have hzeroes : 8 - (hexGroups segments).length = 0 := by
    rw [hexGroups, List.length_map, hl]
  rw [expandGroups, splitAll_fmtSubslice, if_neg hne]
  simp only [htake, hdrop, hzeroes, map_segmentOf, List.dropWhile_nil, List.map_nil,
    List.length_nil, Nat.sub_zero, List.replicate_zero, List.append_nil]

theorem fmtSubslice_chars {chunk : List UInt16} (hc : c ∈ fmtSubslice chunk) :
    isNumeralChar c = true ∨ c = ':' := by
  cases chunk with
  | nil => cases hc
  | cons first tail =>
    rcases List.mem_append.1 hc with h | h
    · exact .inl (isNumeralChar_of_lowerHex h)
    · obtain ⟨segment, -, h⟩ := List.mem_flatMap.1 h
      rcases List.mem_cons.1 h with rfl | h
      · exact .inr rfl
      · exact .inl (isNumeralChar_of_lowerHex h)

/-- The texts of IPv6 addresses are read back. -/
theorem ipv6OfText_display (ip : Ipv6Addr) : ipv6OfText ip.display = some ip := by
  have hspan : SpansZeroes ip.segments (longestZeroes ip.segments 0 ⟨0, 0⟩ ⟨0, 0⟩) :=
    @longestZeroes_spans [] _ _ _ ⟨[], [], rfl, rfl⟩ ⟨[], rfl, fun h => absurd rfl h⟩
  have hdot {s : Text} (hs : ∀ c ∈ s, isNumeralChar c = true ∨ c = ':') : '.' ∉ s := by
    intro hm
    rcases hs _ hm with h | h
    · cases h
    · cases h
  rw [Ipv6Addr.display]
  split
  · rename_i ipv4 hv4
    have hmem : '.' ∈ "::ffff:".toList ++ ipv4.display :=
      List.mem_append_right _ (dot_mem_ipv4 ipv4)
    rw [ipv6OfText, if_pos hmem, stripPrefix_eq_some.2 rfl]
    change (ipv4OfText ipv4.display >>= _) = _
    rw [ipv4OfText_iff.2 rfl]
    exact congrArg some (toIpv4Mapped_some hv4)
  · generalize longestZeroes ip.segments 0 ⟨0, 0⟩ ⟨0, 0⟩ = zeroes at hspan
    simp only
    split
    · have heq := hspan.eq
      have hlen := congrArg List.length heq
      rw [List.length_append, List.length_append, List.length_replicate, ip.length_eq] at hlen
      have hchars : ∀ c ∈ fmtSubslice (ip.segments.take zeroes.start) ++ "::".toList ++
          fmtSubslice (ip.segments.drop (zeroes.start + zeroes.len)),
          isNumeralChar c = true ∨ c = ':' := by
        intro c hc
        rcases List.mem_append.1 hc with hc | hc
        · rcases List.mem_append.1 hc with hc | hc
          · exact fmtSubslice_chars hc
          · exact .inr (List.eq_of_mem_replicate (n := 2) hc)
        · exact fmtSubslice_chars hc
      have hn : (ip.segments.take zeroes.start).length + zeroes.len +
          (ip.segments.drop (zeroes.start + zeroes.len)).length = 8 := by
        rw [Nat.add_assoc]
        exact hlen
      have hexpand := expandGroups_compressed hn
      rw [List.append_assoc (ip.segments.take _), heq] at hexpand
      rw [ipv6OfText, if_neg (hdot hchars)]
      simp only [hexpand]
      exact dif_pos ip.length_eq
    · rw [ipv6OfText, if_neg (hdot fun c => fmtSubslice_chars)]
      simp only [expandGroups_full ip.length_eq]
      exact dif_pos ip.length_eq

example : ipv6OfText "2001:db8::1:0:0:1".toList =
    some ⟨[0x2001, 0xdb8, 0, 0, 1, 0, 0, 1], rfl⟩ := by decide

theorem colon_mem_display (ip : Ipv6Addr) : ':' ∈ ip.display := by
  rw [Ipv6Addr.display]
  split
  · exact List.mem_cons_self
  · simp only
    split
    · exact List.mem_append_left _ (List.mem_append_right _ List.mem_cons_self)
    · have hl := ip.length_eq
      generalize ip.segments = segments at hl
      match segments, hl with
      | first :: second :: tail, _ =>
        rw [fmtSubslice, List.flatMap_cons]
        exact List.mem_append_right _ List.mem_cons_self

end Ipv6

end Dhttp.Log
