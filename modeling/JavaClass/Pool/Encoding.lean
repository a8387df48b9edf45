/-
The constant pool in a file: the number of slots, then the constants in the order of their
slots. Reserved slots are counted but not written; the reader knows them by the width of the
constant before. A pool is only accepted if every reference inside it leads where it should.
-/

import JavaClass.Pool.Resolution

namespace JavaClass.Pool

/-- The bytes of a pool. -/
def write (pool : Pool) : Bytes :=
  BigEndian.word16 (UInt16.ofNat pool.size) ++ pool.slots.toList.flatMap Constant.write

/-- Reads constants until the pool has `count` slots. Each fills at least one, so no more rounds
are needed than there are slots to fill. -/
def readConstants (count : Nat) : Nat → Pool → Reader Pool
  | 0, pool => fun bytes => .ok (pool, bytes)
  | rounds + 1, pool => fun bytes =>
    if count ≤ pool.size then .ok (pool, bytes)
    else
      match Constant.read bytes with
      | .error error => .error error
      | .ok (constant, rest) =>
        if count < pool.size + constant.width then
          .error (.malformed (.constantPastEnd constant.kind count))
        else
          match push constant pool with
          | (.error error, _) => .error error
          | (.ok _, pool) => readConstants count rounds pool rest

/-- Reads a pool. -/
def read : Reader Pool := do
  let count := (← Reader.u16).toNat
  if count = 0 then throw (.malformed .emptyPool)
  let pool ← readConstants count count empty
  match pool.checkReferences with
  | .error error => throw error
  | .ok () => return pool

end JavaClass.Pool
