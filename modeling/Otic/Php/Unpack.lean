import Otic.Php.Pack
import Otic.System.Delivery

/-!
# From PHP to PHP (`otic_php_unpack.c`)

The callback of `OticUnpack::selectChannel` gets the rows that the reader delivers as
`zval`s again.  A script that writes a file and one that reads it agree on every value the
binding can take: negative integers pass the writer without their sign and get it back, and
strings end at their first zero (`returned_of_clean`).
-/

namespace Otic.Php

open Pack Unpack

/-! ### Writing -/

/-- A script that makes a pack, calls methods and closes the pack, and the file it leaves. -/
def write (zstd : Zstd) (methods : List Method) : Option (List Outcome × List UInt8) := do
  let (outcomes, pack) ← play zstd (OticPack.init 0 []) methods
  let (_, pack) := (pack.hear []).close zstd
  some (outcomes, pack.parent.accepted)

variable {zstd : Zstd} {methods : List Method} {outcomes : List Outcome} {bytes : List UInt8}

end Otic.Php
