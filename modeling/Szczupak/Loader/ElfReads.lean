import Szczupak.Loader.Elf

/-!
The bytes of the image that `elf_load` reads, as indices from its first byte.  The sum of a
segment's offset and size may wrap; the copy then reads in front of the image or behind it, as far
as the pages of the segment are there.
-/

namespace Szczupak

section Inside

variable {root elfData elfSize : Nat} {kernel : Mem} {entry : ElfEntry}

end Inside

section Image

variable {kernel : Mem} {elfData elfSize : UInt64}

end Image

end Szczupak
