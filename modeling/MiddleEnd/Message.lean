/-!
# Messages

A message is handed on as a terminated text: it ends before its first null
character, whatever the text that it quotes goes on to hold.
-/

namespace MiddleEnd

/-- The text up to its first null character. -/
def terminated (text : String) : String :=
  String.ofList (text.toList.takeWhile (· ≠ '\x00'))

end MiddleEnd
