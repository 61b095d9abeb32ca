/-! File paths as text. A path is shown the way it was given; joining puts a separator between two parts
    unless the first is empty or ends in one, and an absolute second part stands alone. -/

namespace SpriteFacts.Path

def join (dir file : String) : String :=
  if file.toList.head? = some '/' then file
  else if dir.isEmpty || dir.toList.getLast? = some '/' then dir ++ file
  else dir ++ "/" ++ file

end SpriteFacts.Path
