import ClientForge.Text.Blank
import ClientForge.Value.Basic

/-!
# Order of values

Values of one family are ordered: numbers by size, texts by code points, byte strings
by bytes, dates and times by their place in time, sequences item by item. Values of
different families are not comparable, nor are null, mappings, a date and a
date-time, or a date-time with a known offset and one without.
-/

namespace ClientForge.Value

open ClientForge.Number

/-- Order of byte strings, byte by byte. -/
def bytesLess : List UInt8 → List UInt8 → Bool
  | _, [] => false
  | [], _ :: _ => true
  | a :: as, b :: bs => a < b || (a == b && bytesLess as bs)

mutual

/-- Whether the first value comes before the second, if the two are comparable. -/
def less? : Value → Value → Option Bool
  | .str s, .str t => some (Text.codeLess s.toList t.toList)
  | .bytes bs, .bytes cs => some (bytesLess bs cs)
  | .date d, .date e => some (d.ordinal < e.ordinal)
  | .time t, .time u => some (t.micros < u.micros)
  | .dateTime t, .dateTime u =>
    if t.offset.isSome == u.offset.isSome then some (t.instant < u.instant) else none
  | .list xs, .list ys => lessAll? xs ys
  | .tuple xs, .tuple ys => lessAll? xs ys
  | .set xs, .set ys => some (xs.length < ys.length && sameMembers xs ys)
  | v, w => do
    let p ← v.number?
    let q ← w.number?
    pure (p.lt q)
termination_by structural v => v

/-- Order of sequences, decided at the first items that differ. -/
def lessAll? : List Value → List Value → Option Bool
  | _, [] => some false
  | [], _ :: _ => some true
  | x :: xs, y :: ys => if same x y then lessAll? xs ys else less? x y
termination_by structural vs => vs

end

end ClientForge.Value
