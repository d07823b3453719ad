import Playscript.Text.Blank
import Playscript.Text.Lines

/-! # Instrumentation

    Perl code that goes in front of a script: it takes the place of the functions that
    change files, logs each call of one of them, and writes the log when the script
    ends.  Code of the user's own can stand between its two parts. -/

namespace Playscript.Perl

/-- Lines as a text, each with its line end. -/
def textOfLines (lines : List String) : String :=
  String.join (lines.map (· ++ "\n"))

/-- The lines that log the functions of Perl and of its file packages. -/
def loggingLines : List String :=
  ["",
   "use strict;",
   "use warnings;",
   "use Env;",
   "use JSON;",
   "use IO::File;",
   "",
   "my @OPS;",
   "sub log_task \x7b",
   "    my ($type, $refdata) = @_;",
   "        push @OPS, \x7b type => $type, data => $refdata \x7d;",
   "\x7d",
   "sub log_op \x7b",
   "    my ($type, %data) = @_;",
   "        push @OPS, \x7b type => $type, %data \x7d;",
   "\x7d",
   "",
   "# Wrap file operations",
   "BEGIN \x7b",
   "    no warnings 'redefine';",
   "    *CORE::GLOBAL::open = sub (*;$@) \x7b",
   "        my ($fh, $mode, $file, @rest) = @_;",
   "        log_op(\"file_open\", file => $file, mode => $mode, rest => \\@rest);",
   "        # If $fh is a string, convert to symbol ref",
   "        #if (!ref $fh) \x7b",
   "        #    no strict 'refs';",
   "        #    return CORE::open(*\x7b$fh\x7d,  $mode, $file, @rest);",
   "        #\x7d else \x7b",
   "        #    return CORE::open($fh,  $mode, $file, @rest);",
   "        #\x7d",
   "        return;",
   "    \x7d;",
   "    *CORE::GLOBAL::close = sub (*) \x7b",
   "        my ($fh) = @_;",
   "        log_op(\"file_close\", fh => $fh);",
   "        # TODO:",
   "        # maybe close, do something with the file?",
   "        #return CORE::close($fh);",
   "        return;",
   "    \x7d;",
   "    *CORE::GLOBAL::rename = sub \x7b",
   "        my ($from, $to) = @_;",
   "        log_op(\"file_rename\", from => $from, to => $to);",
   "        #return CORE::rename($from, $to);",
   "        return;",
   "    \x7d;",
   "    *CORE::GLOBAL::unlink = sub \x7b",
   "        my @files = @_;",
   "        log_op(\"file_delete\", files => \\@files);",
   "        #return CORE::unlink(@files);",
   "        return;",
   "    \x7d;",
   "    *CORE::GLOBAL::system = sub \x7b",
   "        my @args = @_;",
   "        log_op(\"system_call\", args => \\@args);",
   "        # TODO: defang all destructive calls",
   "        # return CORE::system(@args);",
   "        return;",
   "    \x7d;",
   "    *CORE::GLOBAL::exec = sub \x7b",
   "        my @args = @_;",
   "        log_op(\"exec_call\", args => \\@args);",
   "        #return CORE::exec(@args);",
   "        return;",
   "    \x7d;",
   "    *CORE::GLOBAL::mkdir = sub \x7b",
   "        my ($dir, $mode) = @_;",
   "        log_op(\"mkdir\", dir => $dir, mode => $mode);",
   "        # return CORE::mkdir($dir, $mode);",
   "        return;",
   "    \x7d;",
   "    *CORE::GLOBAL::rmdir = sub \x7b",
   "        my ($dir) = @_;",
   "        log_op(\"rmdir\", dir => $dir);",
   "        # return CORE::rmdir($dir);",
   "        return;",
   "    \x7d;",
   "    # Wrap File::Path::make_path",
   "    \x7b",
   "        no warnings 'redefine';",
   "        require File::Path;",
   "        *File::Path::make_path = sub \x7b",
   "            my @dirs = @_;",
   "            ::log_op(\"external_call\", module => \"File::Path\", method => \"make_path\", args => [@dirs]);",
   "            # return File::Path::make_path(@dirs);",
   "            return;",
   "        \x7d;",
   "    \x7d",
   "    # Wrap File::Path::remove_tree",
   "    \x7b",
   "        no warnings 'redefine';",
   "        require File::Path;",
   "        *File::Path::remove_tree = sub \x7b",
   "            my @dirs = @_;",
   "            ::log_op(\"external_call\", module => \"File::Path\", method => \"remove_tree\", args => [@dirs]);",
   "            # return File::Path::remove_tree(@dirs);",
   "            return;",
   "        \x7d;",
   "    \x7d",
   "    # Wrap File::Copy::copy",
   "    \x7b",
   "        no warnings 'redefine';",
   "        require File::Copy;",
   "        *File::Copy::copy = sub \x7b",
   "            my ($src, $dest) = @_;",
   "            ::log_op(\"external_call\", module => \"File::Copy\", method => \"copy\", args => [$src, $dest]);",
   "            # return File::Copy::copy($src, $dest);",
   "            return;",
   "        \x7d;",
   "    \x7d",
   "",
   "\x7d",
   "BEGIN \x7b",
   "        package Org::Turland::Custom;",
   "        # sample package which need not exist at parse-time",
   "        no warnings 'redefine';",
   "        use Exporter qw(import);",
   "        our @EXPORT_OK = qw(file_state);",
   "        *Org::Turland::Custom::file_state = sub \x7b",
   "            my (%args) = @_;",
   "            my $path = $args\x7bpath\x7d;",
   "            my $state = $args\x7bstate\x7d // 'absent';",
   "            my $params = $args\x7bparams\x7d // \x7b sudo => 1 \x7d;",
   "            my $task = \x7b name => 'file_state',",
   "                         task => 'ansible.builtin.file',",
   "                         task_params => \x7b",
   "                                path => $path ,",
   "                                state => $state,",
   "                            \x7d,",
   "                         params => $params,",
   "                    \x7d;",
   "            ::log_task(\"custom\", $task);",
   "            return;",
   "        \x7d;",
   "    \x7d"]

/-- The lines that log the packages that are loaded and write the log. -/
def closingLines : List String :=
  ["",
   "",
   "# Wrap require to log external package usage",
   "BEGIN \x7b",
   "    no warnings 'redefine';",
   "    *CORE::GLOBAL::require = sub \x7b",
   "        my ($module) = @_;",
   "        #my $res = CORE::require($module);",
   "        log_op(\"module_load\", module => $module);",
   "        #return $res;",
   "    \x7d;",
   "\x7d",
   "",
   "END \x7b",
   "    my $json = encode_json(\\@OPS);",
   "    my $fh = IO::File->new(\"/tmp/ops_log.json\", \"w\");",
   "    print $fh $json;",
   "    $fh->close;",
   "\x7d"]

/-- The first part of the instrumentation. -/
def loggingPart : String :=
  textOfLines loggingLines

/-- The instrumentation around some code of the user's own. -/
def instrumentation (custom : String) : String :=
  loggingPart ++ "\n" ++ custom ++ "\n" ++ textOfLines closingLines

/-- A script behind its instrumentation. -/
def instrumented (custom script : String) : String :=
  instrumentation custom ++ "\n" ++ script

/-! ## Packages -/

/-- Whether a character can stand in the name of a package. -/
def inPackageName (c : Char) : Bool :=
  c.isAlphanum || c == '_' || c == ':'

/-- The package that is declared at the start of a text, and the length of the declaration. -/
def packageAt (cs : List Char) : Option (String × Nat) :=
  let keyword := "package".toList
  let front := cs.takeWhile Text.isBlank
  let behind := cs.drop front.length
  if keyword.isPrefixOf behind then
    let behind := behind.drop keyword.length
    let gap := behind.takeWhile Text.isBlank
    let name := (behind.drop gap.length).takeWhile inPackageName
    if gap.isEmpty || name.isEmpty then none
    else some (String.ofList name, front.length + keyword.length + gap.length + name.length)
  else none

/-- The packages declared in a text, after some characters to skip; a declaration starts a
    line. -/
def packagesAfter (atLineStart : Bool) : Nat → List Char → List String
  | _, [] => []
  | skip + 1, c :: rest => packagesAfter (c == '\n') skip rest
  | 0, c :: rest =>
    match (if atLineStart then packageAt (c :: rest) else none) with
    | some (name, length) => name :: packagesAfter (c == '\n') (length - 1) rest
    | none => packagesAfter (c == '\n') 0 rest

/-- The packages declared in the instrumentation, each once, in order. -/
def instrumentationPackages (custom : String) : List String :=
  (packagesAfter true 0 (instrumentation custom).toList).eraseDups.mergeSort fun a b => !(b < a)

end Playscript.Perl
