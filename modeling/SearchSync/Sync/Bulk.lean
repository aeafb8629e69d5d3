import SearchSync.Scan.Basic
import SearchSync.Sync.Trace

/-!
Filling an index from scratch: every record of a merged scan is indexed, in the order of the scan.
As with the counts of a batch, a count that reaches `2 ^ 64` is taken as out of reach.
-/

namespace SearchSync.Bulk

/-- Orders records by their ids. Of records with equal ids that of the earlier source comes
first. -/
def byId : Scan.Comparator EntityType Record := fun a b => a.value.id.cmp b.value.id

def indexAll {τ σ : Type} (sink : SearchIndex τ σ) (tx : τ) (scan : Scan EntityType Record σ)
    (world : σ) : Except UpdateError Nat × Scan EntityType Record σ × σ :=
  match _step : scan.next world with
  | (.error e, scan, world) => (.error (.scan e), scan, world)
  | (.ok false, scan, world) => (.ok 0, scan, world)
  | (.ok true, scan, world) =>
    match scan.get with
    | .error e => (.error (.scan e), scan, world)
    | .ok r =>
      match sink.index r tx world with
      | (.error cause, world) => (.error (.write .index r.entityType r.id cause), scan, world)
      | (.ok (), world) =>
        match indexAll sink tx scan world with
        | (.ok count, rest) => (.ok (count + 1), rest)
        | (.error e, rest) => (.error e, rest)
  termination_by Scan.pending scan.sources
  decreasing_by
    have := Scan.pending_next _step
    omega

end SearchSync.Bulk
