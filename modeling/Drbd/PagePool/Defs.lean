import Drbd.Lib.Bytes
import Drbd.Lib.Chain

/-!
# The page pool

`drbd_pp_pool` is a chain through the `private` fields of its pages. `__drbd_alloc_pages` cuts pages off it, or takes
them from the system one by one; `drbd_free_pages` puts them back, or gives them to the system. The lock is held only
while the pool's head is changed, so anything may happen between the steps of a thread.
-/

namespace Drbd.PagePool

open Lib

abbrev Page := Nat

/-! ## Page chains -/

/-- The loop of `page_chain_del` from a page on: the `n`th page, and the one after it. -/
def pageChainNth (priv : Page → Option Page) : Nat → Page → Option (Page × Option Page)
  | 0, _ => none
  | 1, page => some (page, priv page)
  | n + 2, page => (priv page).bind fun tmp => pageChainNth priv (n + 1) tmp

/-- `page_chain_del`: what is cut off, the rest, and the fields after it. -/
def pageChainDel (priv : Page → Option Page) (head : Option Page) (n : Nat) :
    Option (Page × Option Page × (Page → Option Page)) :=
  head.bind fun page => (pageChainNth priv n page).map fun (last, tmp) =>
    (page, tmp, Function.update priv last none)

/-- The loop of `page_chain_tail`, for a chain of at most `fuel` pages: the last page, and the length. -/
def pageChainTail (priv : Page → Option Page) : Nat → Page → Nat → Option (Page × Nat)
  | 0, _, _ => none
  | fuel + 1, page, i =>
      match priv page with
      | none => some (page, i)
      | some tmp => pageChainTail priv fuel tmp (i + 1)

/-! ## Threads -/

/-- Where the pages of an allocation are, from the call of `__drbd_alloc_pages` to the end of `drbd_free_pages`. -/
inductive Task
  | idle
  /-- in `__drbd_alloc_pages`, before the look at `drbd_pp_vacant` -/
  | deciding (number : Nat)
  /-- before the lock is taken for `page_chain_del` -/
  | deleting (number : Nat)
  /-- in the loop, with `i` pages of the system -/
  | growing (number : Nat) (page : Option Page) (i : Nat)
  /-- before the lock is taken for `page_chain_add`; then `drbd_free_pages` goes on, if it was that -/
  | linking (page last : Page) (i : Nat) (isNet : Option Bool)
  /-- handed out; `pp_in_use` or `pp_in_use_by_net` is to count it, or counts it already -/
  | holds (number : Nat) (page : Option Page) (isNet : Option Bool)
  /-- in the loop of `page_chain_free` -/
  | freeing (page : Option Page) (i : Nat) (isNet : Bool)
  /-- before `atomic_sub_return` -/
  | freed (i : Nat) (isNet : Bool)
deriving DecidableEq

inductive Action
  /-- `__drbd_alloc_pages` is called -/
  | alloc (number : Nat)
  | test
  | del
  /-- `alloc_page` gives a page -/
  | page (p : Page)
  | noPage
  | link
  /-- `atomic_add` at the end of `drbd_alloc_pages` -/
  | count
  /-- `move_to_net_ee_or_free` with pages still being sent -/
  | toNet
  /-- `drbd_free_pages` is called -/
  | free
  | put
  | sub
deriving DecidableEq

/-- The pool, `n` allocations, and the counters of the devices. -/
structure Pool (n : Nat) where
  priv : Page → Option Page
  drbdPpPool : Option Page
  drbdPpVacant : Int
  /-- the pages that the system has given away -/
  inUse : List Page
  task : Fin n → Task
  ppInUse : Nat → Int
  ppInUseByNet : Nat → Int

/-- A step of allocation `k`, or somebody else writes to a page of the system. -/
inductive PoolEvent (n : Nat)
  | act (k : Fin n) (a : Action)
  | scribble (p : Page) (link : Option Page)

namespace Pool

variable {n : Nat}

def setTask (s : Pool n) (k : Fin n) (t : Task) : Pool n := { s with task := Function.update s.task k t }

def addInUse (s : Pool n) (device : Nat) (isNet : Bool) (i : Int) : Pool n :=
  if isNet then { s with ppInUseByNet := Function.update s.ppInUseByNet device (s.ppInUseByNet device + i) }
  else { s with ppInUse := Function.update s.ppInUse device (s.ppInUse device + i) }

/-- `page_chain_tail`; a chain has no more pages than are in use. -/
def tail (s : Pool n) (page : Page) : Option (Page × Nat) := pageChainTail s.priv s.inUse.length page 1

/-- The locked part of `__drbd_alloc_pages`. -/
def del (s : Pool n) (k : Fin n) (number : Nat) : Pool n :=
  match pageChainDel s.priv s.drbdPpPool number with
  | some (page, rest, priv) =>
      { s with priv := priv, drbdPpPool := rest, drbdPpVacant := s.drbdPpVacant - number }.setTask k
        (.holds number (some page) none)
  | none => s.setTask k (.growing number none 0)

/-- `page_chain_add`, whose `BUG_ON` faults, and the count after it. -/
def link (s : Pool n) (k : Fin n) (page last : Page) (i : Nat) (isNet : Option Bool) : Option (Pool n) :=
  (s.tail page).bind fun (tmp, _) =>
    if tmp ≠ last then none
    else
      let s := { s with
        priv := Function.update s.priv last s.drbdPpPool
        drbdPpPool := some page
        drbdPpVacant := s.drbdPpVacant + i }
      some (s.setTask k (match isNet with | none => .idle | some isNet => .freed i isNet))

/-- The task of the end of the loop of `__drbd_alloc_pages`. -/
def grown (number : Nat) (page : Option Page) (i : Nat) : Task :=
  if i = number then .holds number page none else .growing number page i

/-- `limit` is the threshold of `drbd_free_pages`, `device` tells whose allocation it is. -/
def act (limit : Nat) (device : Fin n → Nat) (s : Pool n) (k : Fin n) (a : Action) : Option (Pool n) :=
  match s.task k, a with
  | .idle, .alloc number => if 0 < number then some (s.setTask k (.deciding number)) else none
  | .deciding number, .test =>
      some (s.setTask k (if number ≤ unsigned 32 s.drbdPpVacant then .deleting number else .growing number none 0))
  | .deleting number, .del => some (s.del k number)
  | .growing number page i, .page p =>
      if p ∈ s.inUse then none
      else some ({ s with inUse := p :: s.inUse, priv := Function.update s.priv p page }.setTask k
        (grown number (some p) (i + 1)))
  | .growing _ page i, .noPage =>
      match page with
      | none => some (s.setTask k .idle)
      | some page => (s.tail page).map fun (last, _) => s.setTask k (.linking page last i none)
  | .linking page last i isNet, .link => s.link k page last i isNet
  | .holds number page none, .count =>
      some ((s.addInUse (device k) false number).setTask k (.holds number page (some false)))
  | .holds number page (some false), .toNet =>
      some (((s.addInUse (device k) true number).addInUse (device k) false (-number)).setTask k
        (.holds number page (some true)))
  | .holds _ page (some isNet), .free =>
      match page with
      | none => some (s.setTask k .idle)
      | some page =>
          if (limit : Int) < s.drbdPpVacant then some (s.setTask k (.freeing (some page) 0 isNet))
          else (s.tail page).map fun (last, i) => s.setTask k (.linking page last i (some isNet))
  | .freeing (some page) i isNet, .put =>
      -- `page_chain_for_each_safe` has read the link before the page goes
      some ({ s with inUse := s.inUse.erase page }.setTask k
        (match s.priv page with | none => .freed (i + 1) isNet | some tmp => .freeing (some tmp) (i + 1) isNet))
  | .freed i isNet, .sub => some ((s.addInUse (device k) isNet (-i)).setTask k .idle)
  | _, _ => none

def step (limit : Nat) (device : Fin n → Nat) (s : Pool n) : PoolEvent n → Option (Pool n)
  | .act k a => s.act limit device k a
  | .scribble p link => if p ∈ s.inUse then none else some { s with priv := Function.update s.priv p link }

/-- The loop of `drbd_create_mempools`, for the pages it gets. -/
def create (priv : Page → Option Page) : List Page → Pool n
  | [] => ⟨priv, none, 0, [], fun _ => .idle, fun _ => 0, fun _ => 0⟩
  | p :: pages =>
      let s := create priv pages
      { s with
        priv := Function.update s.priv p s.drbdPpPool
        drbdPpPool := some p
        drbdPpVacant := s.drbdPpVacant + 1
        inUse := p :: s.inUse }

end Pool

end Drbd.PagePool
