import Mathlib.Tactic

namespace Helios.Data

/-! Where a C compiler puts the fields of a structure. -/

/-- The size and the alignment of a C type. -/
structure CType where
  size : Nat
  align : Nat
deriving Repr, DecidableEq

namespace CType

def uint8 : CType := ⟨1, 1⟩
def uint16 : CType := ⟨2, 2⟩
def uint32 : CType := ⟨4, 4⟩

def array (element : CType) (count : Nat) : CType := ⟨element.size * count, element.align⟩

def alignUp (offset align : Nat) : Nat := (offset + align - 1) / align * align

/-- The offset of each field, for a structure that is filled up to `start`. -/
def offsets : Nat → List CType → List Nat
  | _, [] => []
  | start, field :: rest =>
      alignUp start field.align :: offsets (alignUp start field.align + field.size) rest

/-- Where the last field ends. -/
def extent : Nat → List CType → Nat
  | start, [] => start
  | start, field :: rest => extent (alignUp start field.align + field.size) rest

/-- A structure is padded to a multiple of its strictest alignment. -/
def struct (fields : List CType) : CType :=
  let align := (fields.map CType.align).foldl max 1
  ⟨alignUp (extent 0 fields) align, align⟩

/-- `__attribute__((packed))`. -/
def packed (fields : List CType) : List CType := fields.map fun field => ⟨field.size, 1⟩

/-- The offset of the field with a given index. -/
def offset (fields : List CType) (index : Nat) : Nat := (offsets 0 fields).getD index 0

end CType

end Helios.Data
