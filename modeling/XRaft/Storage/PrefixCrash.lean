import XRaft.Storage.Refinement

/-!
# Crashes during prefix truncation

`truncate_prefix` deletes the segment files that lie wholly below the new start, the last
of them first, and persists the new start afterwards. A crash leaves the directory as some
number of these changes made it. Until the new start is persisted, recovery starts from
the old one, so it expects the entries of every file that is gone but follows one that is
still there.
-/

namespace XRaft

open Lib

namespace Store

variable {codec : BatchCodec} {store : Store} {log : AbstractLog} {base : ℕ} {pieces : List Piece}

end Store

end XRaft
