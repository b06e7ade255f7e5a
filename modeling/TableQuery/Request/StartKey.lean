/- The start key of a request, given as a cursor or as a map. -/

import TableQuery.Cursor

set_option autoImplicit false
set_option relaxedAutoImplicit false

namespace TableQuery.StartKey

/-- The start key that an option stands for. An empty map is none. -/
def ofOption [DepthLimits] : Value → Except Fault (Option Record)
  | .null => .ok none
  | .text cursor =>
    match Cursor.decodeText cursor with
    | .ok key => .ok (some key.toRecord)
    | .error fault =>
      if fault.isContentFault then .error (.refused .cursorUnreadable) else .error fault
  | .map [] => .ok none
  | .map entries => .ok (some entries)
  | _ => .error (.refused .startKeyUnsupported)

end TableQuery.StartKey
