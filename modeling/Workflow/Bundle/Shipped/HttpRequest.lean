/-
The module for nodes that make a request, as bundles embed it.
-/

namespace Workflow.Bundle.Shipped

/-- The lines of the module for nodes that make a request. -/
def httpRequestLines : List String := [
  "\"\"\"",
  "HTTP Request node runtime.",
  "",
  "Params:",
  "    method: HTTP method (GET, POST, PUT, PATCH, DELETE)",
  "    url: Target URL",
  "    headers: List of \x7bkey, value\x7d pairs",
  "    body: Raw request body (ignored for GET)",
  "    timeout: Request timeout in milliseconds (default: 30000)",
  "\"\"\"",
  "",
  "import asyncio",
  "import time",
  "",
  "import aiohttp",
  "",
  "from flowsmith.nodes.base import NodeExecutionError, Properties, Secrets",
  "",
  "",
  "async def execute(props: Properties, secrets: Secrets):",
  "    url = props.get(\"url\")",
  "    method = str(props.get(\"method\") or \"GET\").upper()",
  "    timeout_ms = props.get(\"timeout\") or 30000",
  "",
  "    if not url:",
  "        raise NodeExecutionError(\"Missing URL\", \"http-request\")",
  "",
  "    headers = \x7b\x7d",
  "    for header in props.get(\"headers\") or []:",
  "        headers[str(header.get(\"key\"))] = str(header.get(\"value\"))",
  "",
  "    body = props.get(\"body\")",
  "    data = body if method != \"GET\" and body else None",
  "",
  "    started = time.monotonic()",
  "    try:",
  "        async with aiohttp.ClientSession() as http:",
  "            async with http.request(",
  "                method,",
  "                url,",
  "                headers=headers,",
  "                data=data,",
  "                timeout=aiohttp.ClientTimeout(total=timeout_ms / 1000),",
  "            ) as response:",
  "                text = await response.text()",
  "                return \x7b",
  "                    \"statusCode\": response.status,",
  "                    \"headers\": dict(response.headers),",
  "                    \"body\": text,",
  "                    \"responseTime\": int((time.monotonic() - started) * 1000),",
  "                \x7d",
  "    except asyncio.TimeoutError as e:",
  "        raise NodeExecutionError(f\"Request timeout after \x7btimeout_ms\x7dms\", \"http-request\") from e",
  "    except aiohttp.ClientError as e:",
  "        raise NodeExecutionError(f\"HTTP request failed: \x7be\x7d\", \"http-request\") from e"]

end Workflow.Bundle.Shipped
