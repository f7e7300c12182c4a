import OnePloy.FilePaths

/-!
# Command lines for a user who needs sudo

`parseCommandsByLineForSudo` rewrites the lines of a script in three passes: the
first puts `sudo` in front, the second lets a `mkdir -p` of the platform's
directories hand them over to the user, and the third gets `sudo` to the
other commands of the line, or wraps the line in `bash -c`.
-/

namespace OnePloy

open Php

/-! ## shouldChangeOwnership -/

def systemPaths : List String :=
  ["/var", "/etc", "/usr", "/opt", "/sys", "/proc", "/dev", "/bin", "/sbin", "/lib", "/lib64",
    "/boot", "/root", "/home", "/media", "/mnt", "/srv", "/run"]

def shouldChangeOwnership (path : String) : Bool :=
  let path := trim path
  if systemPaths.any fun systemPath =>
      path == systemPath || strStartsWith path (systemPath ++ "/") then false
  else strStartsWith path "/data/coolify" || strStartsWith path "/tmp/coolify"

/-! ## The first pass -/

/-- The keywords that get no `sudo`. -/
def bashKeywords : List String :=
  ["cd", "command", "declare", "echo", "export", "local", "readonly", "return", "true", "if", "fi",
    "for", "done", "while", "until", "case", "esac", "select", "then", "else", "elif", "break",
    "continue", "do"]

/-- `/^keyword(\s|;|$)/`. -/
def isLedBy (keyword trimmedLine : String) : Bool :=
  strStartsWith trimmedLine keyword &&
    match (trimmedLine.toList.drop keyword.length).head? with
    | none => true
    | some c => isPatternSpace c || c == ';'

/-- `preg_replace('/^(\s*)if\s+/', '$1if sudo ', $line)`. -/
def sudoAfterIf (line : String) : String :=
  let indent := line.toList.takeWhile isPatternSpace
  match line.toList.dropWhile isPatternSpace with
  | 'i' :: 'f' :: c :: cs =>
      if isPatternSpace c then
        String.ofList (indent ++ "if sudo ".toList ++ cs.dropWhile isPatternSpace)
      else line
  | _ => line

def sudoInFront (line : String) : String :=
  let trimmedLine := trim line
  if strStartsWith trimmedLine "#" then line
  else
    match bashKeywords.find? fun keyword => isLedBy keyword trimmedLine with
    | some keyword => if keyword = "if" then sudoAfterIf line else line
    | none => "sudo " ++ line

/-! ## The second pass -/

/-- `SERVER_USERNAME_PATTERN`. -/
def isServerUsername (user : String) : Bool :=
  !user.toList.isEmpty &&
    user.toList.all fun c => c.isAlphanum || c == '.' || c == '_' || c == '-'

abbrev ServerUsername : Type := {user : String // isServerUsername user = true}

def chownCommand (user : ServerUsername) (path : String) : String :=
  "chown -R " ++ user.val ++ ":" ++ user.val ++ " " ++ path

def chmodCommand (path : String) : String := "chmod -R o-rwx " ++ path

def changeOwnership (user : ServerUsername) (line : String) : String :=
  if strStartsWith line "sudo mkdir -p" then
    let path := trim (strAfter line "sudo mkdir -p")
    if shouldChangeOwnership path then
      line ++ " && sudo " ++ chownCommand user path ++ " && sudo " ++ chmodCommand path
    else line
  else line

/-! ## The third pass -/

def isComplexPipeCommand (line : String) : Bool :=
  strContains line " | sh" || strContains line " | bash" || strContains line " sh -c " ||
    (strContains line " | " && (strContains line "||" || strContains line "&&"))

/-- The argument of `bash -c`. -/
def escapedCommand (command : String) : String := strReplace "'" "'\\''" command

def sudoInside (line : String) : String :=
  let complex := isComplexPipeCommand line
  if complex && strStartsWith line "sudo " then
    "sudo bash -c '" ++ escapedCommand (strAfter line "sudo ") ++ "'"
  else
    let line := if strContains line "$(" then strReplace "$(" "$(sudo " line else line
    let line := if !complex && strContains line "||" then strReplace "||" "|| sudo" line else line
    let line := if !complex && strContains line "&&" then strReplace "&&" "&& sudo" line else line
    if !complex && strContains line " | " then strReplace " | " " | sudo " line else line

def parseCommandsByLineForSudo (commands : List String) (user : ServerUsername) : List String :=
  let commands := commands.map sudoInFront
  let commands := commands.map (changeOwnership user)
  commands.map sudoInside

end OnePloy
