import Listing.Load
import Listing.Sql.Statement

namespace Listing

open Sql

structure Page where
  select : Select
  count : Select
  loads : List Load
  perPage : UInt64
  number : UInt64

namespace Page

def statements (p : Page) (d : Dialect) : List Statement :=
  p.select.statement d :: p.count.statement d :: p.loads.map (·.select.statement d)

def load? (p : Page) (path : String) : Option Load := p.loads.find? (·.path == path)

end Page

end Listing
