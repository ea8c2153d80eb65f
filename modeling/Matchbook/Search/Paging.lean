/-
  Going through all candidates of an item, page by page.

  * `pagesFrom` reads pages until one is not full, resuming each time strictly
    behind the last item; a failed read ends it, what was read before is kept;
  * `possibleMatches` are the candidates of an item in the order of its chain.
-/
import Matchbook.Rule.Chain
import Matchbook.Search.Environment

namespace Matchbook

variable {m : Type → Type} [Monad m]

/-- The items of the query from its place on, in pages of `pageSize`, and the
    failure that ended the reading, if one did.  `fuel` bounds the number of
    pages. -/
def pagesFrom (env : Environment m) (pageSize : Nat) :
    (fuel : Nat) → Query → m (List OrderItem × Option StoreError)
  | 0, _ => pure ([], none)
  | fuel + 1, q => do
    match ← env.query q with
    | .error e => return ([], some e)
    | .ok page =>
      match page.getLast? with
      | none => return (page, none)
      | some last =>
        if page.length < pageSize then return (page, none)
        else
          let (rest, failure) ←
            pagesFrom env pageSize fuel { q with startAfter := some (q.sortKey.cursor last) }
          return (page ++ rest, failure)

/-- The stored candidates of an item, in the order of its chain.  A page has at
    least one item. -/
def possibleMatches (env : Environment m) (chain : Chain) (item : OrderItem) (pageSize : Nat) :
    m (List OrderItem × Option StoreError) :=
  let pageSize := max pageSize 1
  pagesFrom env pageSize (env.extent + 1) { chain.query item with limit := some pageSize }

end Matchbook
